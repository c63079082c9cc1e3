/-
Reading S-expressions. The text of an S-expression is read back by one pass over its characters,
which keeps the atom under way and the lists that have been opened. If no atom can be mistaken for
anything else, the pass finds the S-expression that was written.
-/
import Mathlib.Tactic
import RoadPolicy.Formula.SExpr

namespace RoadPolicy

namespace SExpr

/-- Induction over S-expressions: the items of a list are taken all at once. -/
@[induction_eliminator]
theorem inductionOn {motive : SExpr → Prop} (atom : ∀ s, motive (atom s))
    (list : ∀ items, (∀ e ∈ items, motive e) → motive (list items)) : ∀ e, motive e :=
  @SExpr.rec motive (fun items => ∀ e ∈ items, motive e) atom list
    (fun _ h => nomatch h)
    (fun _ _ he hitems f hf => (List.mem_cons.1 hf).elim (fun h => h ▸ he) (hitems f))

/-! ## The reader -/

/-- How far reading has come: the characters of the atom under way, whether they are inside quotes,
the items of the innermost list that is open, and those of the lists around it. -/
structure Scan where
  word : List Char
  quoted : Bool
  items : List SExpr
  outer : List (List SExpr)

namespace Scan

def start : Scan := ⟨[], false, [], []⟩

/-- The atom under way, if there is one, is complete. -/
def flush (s : Scan) : Scan :=
  if s.word.isEmpty then s else { s with word := [], items := s.items ++ [atom (String.ofList s.word)] }

/-- The innermost list is complete. -/
def close (s : Scan) : Option Scan :=
  match s.outer with
  | [] => none
  | items :: outer => some { s with items := items ++ [list s.items], outer }

/-- One character. Inside quotes only a bar has a meaning. -/
def step (s : Scan) (c : Char) : Option Scan :=
  if s.quoted then some { s with word := s.word ++ [c], quoted := c != '|' }
  else if c = '|' then some { s with word := s.word ++ [c], quoted := true }
  else if c = '(' then some { s.flush with items := [], outer := s.flush.items :: s.flush.outer }
  else if c = ')' then s.flush.close
  else if c = ' ' then some s.flush
  else some { s with word := s.word ++ [c] }

/-- The characters of a text, one after the other. -/
def run (s : Scan) (text : String) : Option Scan := text.toList.foldlM step s

end Scan

/-- The S-expression that a text writes. -/
def read? (text : String) : Option SExpr := do
  let s ← Scan.start.run text
  match s.flush with
  | ⟨_, false, [e], []⟩ => some e
  | _ => none

/-! ## Atoms -/

/-- The characters that mean something outside of quotes. -/
def isSeparator (c : Char) : Bool := c == '|' || c == '(' || c == ')' || c == ' '

/-- A word that reading does not cut: it is quoted, or nothing in it separates atoms. -/
def IsAtom (w : String) : Prop :=
  (∃ cs, w.toList = '|' :: cs ++ ['|'] ∧ '|' ∉ cs) ∨ w ≠ "" ∧ ∀ c ∈ w.toList, isSeparator c = false

mutual

/-- The atoms of an S-expression. -/
def atoms : SExpr → List String
  | atom s => [s]
  | list items => atomsAll items

def atomsAll : List SExpr → List String
  | [] => []
  | e :: es => e.atoms ++ atomsAll es

end

/-- The text of no atom can be mistaken for anything else. -/
def Legible (e : SExpr) : Prop := ∀ w ∈ e.atoms, IsAtom w

theorem atomsAll_eq (items : List SExpr) : atomsAll items = items.flatMap atoms := by
  induction items with
  | nil => rfl
  | cons e es ih => rw [atomsAll, ih, List.flatMap_cons]

theorem legible_atom {w : String} : (atom w).Legible ↔ IsAtom w := by
  unfold Legible
  rw [atoms, List.forall_mem_singleton]

theorem legible_list {items : List SExpr} : (list items).Legible ↔ ∀ e ∈ items, e.Legible := by
  unfold Legible
  rw [atoms, atomsAll_eq]
  simp only [List.mem_flatMap, forall_exists_index, and_imp]
  constructor
  · intro h e he w hw
    exact h w e he hw
  · intro h w e he hw
    exact h e he w hw

/-! ## Reading what was written -/

namespace Scan

variable {items : List SExpr} {outer : List (List SExpr)}

/-- Between two atoms, with the items of the innermost list so far. -/
def between (items : List SExpr) (outer : List (List SExpr)) : Scan := ⟨[], false, items, outer⟩

@[simp] theorem flush_between : (between items outer).flush = between items outer := rfl

theorem flush_word {w : String} (h : w ≠ "") :
    (⟨w.toList, false, items, outer⟩ : Scan).flush = between (items ++ [atom w]) outer := by
  have hne : w.toList.isEmpty = false := by
    rw [List.isEmpty_eq_false_iff]
    intro he
    exact h (String.toList_injective he)
  simp [flush, between, hne]

theorem run_append (s : Scan) (text text' : String) : s.run (text ++ text') = (s.run text).bind (·.run text') := by
  unfold run
  rw [String.toList_append, List.foldlM_append]
  rfl

theorem run_open : (between items outer).run "(" = some (between [] (items :: outer)) := rfl

theorem run_blank {s : Scan} (h : s.quoted = false) : s.run " " = some s.flush := by
  simp [run, step, h]

theorem run_close {s : Scan} {inner : List SExpr} (h : s.quoted = false)
    (hs : s.flush = between inner (items :: outer)) : s.run ")" = some (between (items ++ [list inner]) outer) := by
  simp [run, step, h, hs, close, between]

theorem foldlM_quoted {cs word : List Char} (h : '|' ∉ cs) :
    cs.foldlM step ⟨word, true, items, outer⟩ = some ⟨word ++ cs, true, items, outer⟩ := by
  induction cs generalizing word with
  | nil => simp
  | cons c cs ih =>
    rw [List.mem_cons, not_or] at h
    have hc : (c != '|') = true := by simpa using Ne.symm h.1
    have hstep : step ⟨word, true, items, outer⟩ c = some ⟨word ++ [c], true, items, outer⟩ := by
      simp [step, hc]
    rw [List.foldlM_cons, hstep, Option.bind_eq_bind, Option.bind_some, ih h.2]
    simp

theorem foldlM_plain {cs word : List Char} (h : ∀ c ∈ cs, isSeparator c = false) :
    cs.foldlM step ⟨word, false, items, outer⟩ = some ⟨word ++ cs, false, items, outer⟩ := by
  induction cs generalizing word with
  | nil => simp
  | cons c cs ih =>
    rw [List.forall_mem_cons] at h
    have hc := h.1
    simp only [isSeparator, Bool.or_eq_false_iff, beq_eq_false_iff_ne, ne_eq] at hc
    obtain ⟨⟨⟨hbar, hopen⟩, hclose⟩, hblank⟩ := hc
    have hstep : step ⟨word, false, items, outer⟩ c = some ⟨word ++ [c], false, items, outer⟩ := by
      simp [step, hbar, hopen, hclose, hblank]
    rw [List.foldlM_cons, hstep, Option.bind_eq_bind, Option.bind_some, ih h.2]
    simp

/-- An atom is read as one word. -/
theorem run_atom {w : String} (h : IsAtom w) :
    (between items outer).run w = some ⟨w.toList, false, items, outer⟩ ∧ w ≠ "" := by
  unfold run
  rcases h with ⟨cs, hw, hcs⟩ | ⟨hne, hw⟩
  · constructor
    · rw [hw, List.cons_append, List.foldlM_cons]
      show (cs ++ ['|']).foldlM step ⟨['|'], true, items, outer⟩ = _
      rw [List.foldlM_append, foldlM_quoted hcs]
      rfl
    · rintro rfl
      simp at hw
  · exact ⟨foldlM_plain hw, hne⟩

/-- A text is read as some more items of the innermost list, the last of which may still be under way. -/
def Adds (text : String) (es : List SExpr) : Prop :=
  ∀ items outer, ∃ s : Scan, (between items outer).run text = some s ∧ s.quoted = false ∧
    s.flush = between (items ++ es) outer

theorem adds_items {es : List SExpr} (h : ∀ e ∈ es, Adds e.text [e]) : Adds (textItems es) es := by
  induction es with
  | nil => exact fun items outer => ⟨between items outer, rfl, rfl, by simp⟩
  | cons e es ih =>
    rw [List.forall_mem_cons] at h
    cases es with
    | nil => exact h.1
    | cons f rest =>
      intro items outer
      obtain ⟨s, hrun, hquoted, hflush⟩ := h.1 items outer
      obtain ⟨s', hrun', hquoted', hflush'⟩ := ih h.2 (items ++ [e]) outer
      refine ⟨s', ?_, hquoted', by rw [hflush']; simp⟩
      -- the space completes the first item, then the others follow
      rw [textItems, run_append, run_append, hrun, Option.bind_some, run_blank hquoted, hflush]
      exact hrun'

theorem adds_of_legible (e : SExpr) (h : e.Legible) : Adds e.text [e] := by
  induction e with
  | atom w =>
    intro items outer
    obtain ⟨hrun, hne⟩ := run_atom (legible_atom.1 h)
    exact ⟨_, hrun, rfl, flush_word hne⟩
  | list es ih =>
    intro items outer
    have hinside := adds_items fun e he => ih e he (legible_list.1 h e he)
    obtain ⟨s, hrun, hquoted, hflush⟩ := hinside [] (items :: outer)
    refine ⟨between (items ++ [list es]) outer, ?_, rfl, rfl⟩
    rw [text, run_append, run_append, run_open, Option.bind_some, hrun, Option.bind_some]
    exact run_close hquoted hflush

end Scan

/-- Reading finds the S-expression that was written. -/
theorem read?_text {e : SExpr} (h : e.Legible) : read? e.text = some e := by
  obtain ⟨s, hrun, -, hflush⟩ := Scan.adds_of_legible e h [] []
  have hstart : Scan.start.run e.text = some s := hrun
  rw [read?, hstart, Option.bind_eq_bind, Option.bind_some, hflush]
  rfl

end SExpr

end RoadPolicy
