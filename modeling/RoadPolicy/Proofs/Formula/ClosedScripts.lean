/-
Scripts are closed. What is written in a script is looked at as a solver does: a symbol is open at a
place where no quantifier around it binds it. The open symbols of an assertion are the free names of its
formula, and these are what a script declares, each once and in order.
-/
import RoadPolicy.Proofs.ByteOrder
import RoadPolicy.Proofs.Formula.Dependence
import RoadPolicy.Proofs.Formula.SolverSymbols

namespace RoadPolicy

/-! ## Open symbols -/

namespace SExpr

/-- The word writes a truth value or a number. -/
def isLiteral (w : String) : Bool := w == "true" || w == "false" || (w.toList.head?.map Char.isDigit).getD false

mutual

/-- The names of the symbols that are open in the text of a term, from left to right. The first item of
a list is an operator or a quantifier. -/
def openNames : SExpr → List String
  | atom w => if isLiteral w then [] else [symbolName w]
  | list [] => []
  | list (list _ :: _) => []
  | list (atom head :: args) =>
    match Quantifier.ofText? head with
    | some _ => openNamesUnder args
    | none => openNamesAll args

/-- A quantifier takes away the names that it binds. -/
def openNamesUnder : List SExpr → List String
  | [list binders, body] =>
    body.openNames.filter fun name => name ∉ (binders.filterMap Binder.ofSExpr?).map (·.name)
  | _ => []

def openNamesAll : List SExpr → List String
  | [] => []
  | e :: es => e.openNames ++ openNamesAll es

end

theorem openNamesAll_eq (es : List SExpr) : openNamesAll es = es.flatMap openNames := by
  induction es with
  | nil => rfl
  | cons e es ih => rw [openNamesAll, ih, List.flatMap_cons]

theorem openNames_app {head : String} (hhead : Quantifier.ofText? head = none) (args : List SExpr) :
    (app head args).openNames = args.flatMap openNames := by
  rw [app, openNames, hhead]
  exact openNamesAll_eq args

theorem isLiteral_of_isDigits {w : String} {digits rest : List Char} (hw : w.toList = digits ++ rest)
    (h : IsDigits digits) : isLiteral w = true := by
  obtain ⟨c, cs, rfl⟩ := List.exists_cons_of_ne_nil h.1
  have hdigit : c.isDigit = true := h.2 c List.mem_cons_self
  rw [isLiteral, hw, Bool.or_eq_true]
  exact .inr hdigit

theorem openNames_signed {w : String} (negative : Bool) (h : isLiteral w = true) :
    (signed negative w).openNames = [] := by
  have hatom : (atom w).openNames = [] := by rw [openNames, if_pos h]
  cases negative with
  | false => exact hatom
  | true =>
    show (app "-" [atom w]).openNames = []
    rw [openNames_app rfl, List.flatMap_cons, hatom]
    rfl

theorem isLiteral_natural (n : Nat) : isLiteral (toString n) = true :=
  isLiteral_of_isDigits (List.append_nil _).symm (isDigits_toString n)

theorem isLiteral_decimal (n : Nat) : isLiteral (toString n ++ ".0") = true :=
  isLiteral_of_isDigits (String.toList_append ..) (isDigits_toString n)

theorem openNames_ofRat (q : Rat) : (ofRat q).openNames = [] := by
  have hnum := openNames_signed (decide (q.num < 0)) (isLiteral_decimal q.num.natAbs)
  have hden : (atom (toString q.den ++ ".0")).openNames = [] := openNames_signed false (isLiteral_decimal q.den)
  unfold ofRat
  split
  · exact hnum
  · rw [openNames_app rfl, List.flatMap_cons, List.flatMap_cons, hnum, hden]
    rfl

theorem openNames_ofBool (b : Bool) : (ofBool b).openNames = [] := by
  cases b <;> rfl

/-- The symbol of a name is open under that name, with underscores for bars. -/
theorem openNames_symbol {name : String} (htrue : name ≠ "true") (hfalse : name ≠ "false") :
    (atom (symbolText name)).openNames = [unbarred name] := by
  have hliteral : isLiteral (symbolText name) = false := by
    rw [isLiteral, head_symbolText, Bool.or_false, Bool.or_eq_false_iff, beq_eq_false_iff_ne, beq_eq_false_iff_ne]
    exact ⟨symbolText_ne htrue (by decide), symbolText_ne hfalse (by decide)⟩
  rw [openNames, if_neg (by rw [hliteral]; decide), symbolName_symbolText]

end SExpr

theorem unbarred_eq_iff {name word : String} (hword : word.toList.all (fun c => c != '|' && c != '_') = true) :
    unbarred name = word ↔ name = word := by
  simp only [List.all_eq_true, Bool.and_eq_true, bne_iff_ne] at hword
  constructor
  · rintro rfl
    -- a bar would have left an underscore
    have hbar : '|' ∉ name.toList := by
      intro hbar
      have hmark : '_' ∈ (unbarred name).toList := by
        rw [unbarred, String.toList_map]
        exact List.mem_map.2 ⟨'|', hbar, rfl⟩
      exact (hword _ hmark).2 rfl
    exact (unbarred_eq_self hbar).symm
  · rintro rfl
    exact unbarred_eq_self fun hbar => (hword _ hbar).1 rfl

namespace Term

section

variable (f : String → String)

theorem operands_rename (t : Term) : (t.rename f).operands = t.operands.map (rename f) := by
  cases t with
  | junction j ts => rw [rename_junction]; rfl
  | const | bool | int | real | arith | div | neg | ite | eq | compare | not | implies | quantified => rfl

theorem ownBinders_rename (t : Term) : (t.rename f).ownBinders = t.ownBinders.map (Binder.rename f) := by
  cases t <;> rfl

end

/-- What is open in the text of a term is open in an operand and not bound by the term. -/
theorem mem_openNames_operands {t : Term} {name : String} (ht : ∀ n s, t ≠ const n s) :
    name ∈ t.toSExpr.openNames ↔
      ∃ u ∈ t.operands, name ∈ u.toSExpr.openNames ∧ name ∉ t.ownBinders.map fun b => unbarred b.name := by
  cases t with
  | const n s => exact absurd rfl (ht n s)
  | bool b => simp [toSExpr, SExpr.openNames_ofBool, operands]
  | int n =>
    have hnone : (int n).toSExpr.openNames = [] := SExpr.openNames_signed _ (SExpr.isLiteral_natural n.natAbs)
    simp [hnone, operands]
  | real q => simp [toSExpr, SExpr.openNames_ofRat, operands]
  | arith op a b =>
    rw [toSExpr, SExpr.openNames_app (by cases op <;> rfl)]
    simp [operands, ownBinders]
  | compare op a b =>
    rw [toSExpr, SExpr.openNames_app (by cases op <;> rfl)]
    simp [operands, ownBinders]
  | div a b | neg a | ite c a b | eq a b | not a | implies a b =>
    rw [toSExpr, SExpr.openNames_app rfl]
    simp [operands, ownBinders]
  | junction j ts =>
    cases ts with
    | nil => simp [toSExpr, SExpr.openNames_ofBool, operands]
    | cons t ts =>
      rw [toSExpr, toSExprs_eq, SExpr.openNames_app (by cases j <;> rfl)]
      simp [operands, ownBinders]
  | quantified q binders body =>
    have hq : Quantifier.ofText? q.text = some q := by
      cases q <;> rfl
    have hbinders : (binders.map SExpr.ofBinder).filterMap Binder.ofSExpr? = binders.map (Binder.rename unbarred) := by
      rw [List.filterMap_map, ← List.filterMap_eq_map]
      exact List.filterMap_congr fun b _ => ofSExpr?_ofBinder b
    rw [toSExpr, SExpr.app, SExpr.openNames, hq]
    simp only [SExpr.openNamesUnder, hbinders]
    simp [operands, ownBinders, Binder.rename]

theorem mem_openNames_const {n name : String} {s : TermSort} : name ∈ (const n s).toSExpr.openNames ↔
    name = unbarred n ∧ name ≠ "true" ∧ name ≠ "false" := by
  have htruth : ∀ w ∈ ["true", "false"], unbarred n = w ↔ n = w := by
    simp only [List.forall_mem_cons]
    exact ⟨unbarred_eq_iff (by decide), unbarred_eq_iff (by decide), List.forall_mem_nil _⟩
  simp only [List.forall_mem_cons] at htruth
  obtain ⟨htrue, hfalse, -⟩ := htruth
  by_cases hn : n = "true" ∨ n = "false"
  · have hnone : (const n s).toSExpr.openNames = [] := by
      rcases hn with rfl | rfl <;> rfl
    rw [hnone]
    simp only [List.not_mem_nil, false_iff]
    rintro ⟨rfl, hname⟩
    rcases hn with hn | hn
    · exact hname.1 (htrue.2 hn)
    · exact hname.2 (hfalse.2 hn)
  · rw [not_or] at hn
    rw [toSExpr, SExpr.openNames_symbol hn.1 hn.2, List.mem_singleton]
    constructor
    · rintro rfl
      exact ⟨rfl, fun h => hn.1 (htrue.1 h), fun h => hn.2 (hfalse.1 h)⟩
    · exact And.left

/-- The names that are open in the text of a term are its free names, with underscores for bars and
without the words for truth values. -/
theorem mem_openNames_iff {t : Term} {name : String} : name ∈ t.toSExpr.openNames ↔
    (∃ s, (t.rename unbarred).Mentions (name, s)) ∧ name ≠ "true" ∧ name ≠ "false" := by
  induction t using operands_induction with
  | step t ih =>
    by_cases ht : ∃ n s, t = const n s
    · obtain ⟨n, s, rfl⟩ := ht
      rw [mem_openNames_const]
      simp [rename, Mentions, freeOccurrences]
    · rw [not_exists] at ht
      have hconst : ∀ n s, t ≠ const n s := fun n s h => ht n ⟨s, h⟩
      have hrename : ∀ c : String × TermSort, t.rename unbarred ≠ const c.1 c.2 := by
        intro c h
        cases t with
        | const n s => exact hconst n s rfl
        | junction j ts => rw [rename_junction] at h; cases h
        | bool | int | real | arith | div | neg | ite | eq | compare | not | implies | quantified => cases h
      have hmentions : ∀ s, (t.rename unbarred).Mentions (name, s) ↔
          ∃ u ∈ t.operands, (u.rename unbarred).Mentions (name, s) ∧ name ∉ t.ownBinders.map fun b => unbarred b.name := by
        intro s
        rw [mentions_iff_operands, or_iff_right (hrename _), operands_rename, ownBinders_rename, List.map_map]
        simp [Binder.rename, Function.comp_def]
      rw [mem_openNames_operands hconst]
      constructor
      · rintro ⟨u, hu, hopen, hbound⟩
        obtain ⟨⟨s, hs⟩, hname⟩ := (ih u hu).1 hopen
        exact ⟨⟨s, (hmentions s).2 ⟨u, hu, hs, hbound⟩⟩, hname⟩
      · rintro ⟨⟨s, hs⟩, hname⟩
        obtain ⟨u, hu, hs, hbound⟩ := (hmentions s).1 hs
        exact ⟨u, hu, (ih u hu).2 ⟨⟨s, hs⟩, hname⟩, hbound⟩

end Term

/-! ## Declarations -/

/-- The constant occurs free in the term with this sort: around it, no quantifier binds its name. -/
def Term.FreeAs (t : Term) (name : String) (s : TermSort) : Prop :=
  ∃ scope, t.PartUnder scope (const name s) ∧ name ∉ scope

namespace Term

variable {t : Term}

theorem mentions_iff_freeAs {c : String × TermSort} : t.Mentions c ↔ t.FreeAs c.1 c.2 := mentions_iff_partUnder

theorem subterms_eq (t : Term) : t.subterms = t :: t.operands.flatMap subterms := by
  cases t <;> simp [subterms, subtermsAll_eq, operands]

theorem PartUnder.mem_subterms {scope : List String} {part : Term} (h : t.PartUnder scope part) : part ∈ t.subterms := by
  induction h with
  | whole t =>
    rw [subterms_eq]
    exact List.mem_cons_self
  | operand hu _ ih =>
    rw [subterms_eq]
    exact List.mem_cons_of_mem _ (List.mem_flatMap.2 ⟨_, hu, ih⟩)

theorem FreeAs.mem_names {name : String} {s : TermSort} (h : t.FreeAs name s) : name ∈ t.names := by
  obtain ⟨scope, hpart, -⟩ := h
  exact List.mem_append_left _ (mem_constNames_iff.2 ⟨_, hpart.mem_subterms, rfl⟩)

end Term

theorem declarations_eq_ofList (formulas : List Term) :
    declarations formulas = Dict.ofList (formulas.flatMap fun f => f.freeConsts.entries) := by
  rw [Dict.ofList, List.foldl_flatMap]
  rfl

section

variable {formulas : List Term}

theorem mentioned_of_mem_declarations {c : String × TermSort} (h : c ∈ (declarations formulas).entries) :
    Mentioned formulas c := by
  have hget := Dict.get?_eq_some_iff.2 h
  rw [declarations_eq_ofList] at hget
  -- an entry comes from the table of some formula, and there from an occurrence
  rcases Dict.mem_of_get?_foldl_insert _ _ hget with hnone | hmem
  · cases hnone
  obtain ⟨f, hf, hc⟩ := List.mem_flatMap.1 hmem
  rcases Dict.mem_of_get?_foldl_insert _ _ (Dict.get?_eq_some_iff.2 hc) with hnone | hoccurs
  · cases hnone
  · exact ⟨f, hf, hoccurs⟩

theorem exists_mem_declarations {c : String × TermSort} (h : Mentioned formulas c) :
    ∃ s, (c.1, s) ∈ (declarations formulas).entries := by
  obtain ⟨f, hf, hc⟩ := h
  have hf' : f.freeConsts.contains c.1 = true := Term.contains_freeConsts_iff.2 ⟨c.2, hc⟩
  obtain ⟨s, hs⟩ := Option.isSome_iff_exists.1 hf'
  have hall : (declarations formulas).contains c.1 = true := by
    rw [declarations_eq_ofList, Dict.contains_ofList_iff]
    exact ⟨s, List.mem_flatMap.2 ⟨f, hf, Dict.get?_eq_some_iff.1 hs⟩⟩
  obtain ⟨s', hs'⟩ := Option.isSome_iff_exists.1 hall
  exact ⟨s', Dict.get?_eq_some_iff.1 hs'⟩

end

/-- No name is free with two sorts in the formulas. -/
def OneSort (formulas : List Term) : Prop :=
  ∀ f ∈ formulas, ∀ g ∈ formulas, ∀ name s s', f.FreeAs name s → g.FreeAs name s' → s = s'

theorem OneSort.mem_declarations_iff {formulas : List Term} (h : OneSort formulas) {c : String × TermSort} :
    c ∈ (declarations formulas).entries ↔ Mentioned formulas c := by
  refine ⟨mentioned_of_mem_declarations, fun hc => ?_⟩
  obtain ⟨s, hs⟩ := exists_mem_declarations hc
  obtain ⟨f, hf, hfree⟩ := hc
  obtain ⟨g, hg, hfree'⟩ := mentioned_of_mem_declarations hs
  have hsame : s = c.2 :=
    h g hg f hf c.1 s c.2 (Term.mentions_iff_freeAs.1 hfree') (Term.mentions_iff_freeAs.1 hfree)
  rw [hsame] at hs
  exact hs

/-! ## Closed scripts -/

/-- The line that declares a constant. -/
def declarationLine (c : String × TermSort) : String := "(declare-const " ++ symbolText c.1 ++ " " ++ c.2.text ++ ")\n"

/-- The line that asserts a formula. -/
def assertionLine (f : Term) : String := "(assert " ++ f.text ++ ")\n"

/-- A script of formulas is closed by the constants that it declares. -/
structure ClosedBy (formulas : List Term) (declared : List (String × TermSort)) : Prop where
  /-- The script is one line for each declaration, then one for each formula, and two commands. -/
  lines : script formulas =
    String.join (declared.map declarationLine ++ formulas.map assertionLine ++ ["(check-sat)\n", "(get-model)\n"])
  /-- The declared constants are those that are free in some formula. -/
  mem_iff : ∀ name s, (name, s) ∈ declared ↔ ∃ f ∈ formulas, f.FreeAs name s
  /-- The names are in the order of their bytes, each once. -/
  ordered : declared.Pairwise fun c d => utf8 c.1 < utf8 d.1
  /-- No symbol is declared twice. -/
  apart : declared.Pairwise fun c d => ¬ SameSymbol (symbolText c.1) (symbolText d.1)
  /-- What stands in an assertion and is not bound there is declared. -/
  closed : ∀ f ∈ formulas, ∃ e, SExpr.read? f.text = some e ∧ ∀ name ∈ e.openNames, name ∈ declared.map (·.1)
  /-- What is bound wherever it occurs is not declared. -/
  bound_apart : ∀ f ∈ formulas, ∀ name ∈ f.names, (∀ g ∈ formulas, ¬ g.OccursFree name) →
    ∀ c ∈ declared, ¬ SameSymbol (symbolText c.1) (symbolText name)

theorem script_lines (formulas : List Term) : script formulas =
    String.join ((declarations formulas).entries.map declarationLine ++ formulas.map assertionLine ++
      ["(check-sat)\n", "(get-model)\n"]) := by
  have hdeclare : ∀ v w, (SExpr.app "declare-const" [.atom v, .atom w]).text =
      "(declare-const " ++ v ++ " " ++ w ++ ")" := by
    intro v w
    have hhead : "(declare-const " = "(" ++ "declare-const" ++ " " := by decide
    simp only [SExpr.app, SExpr.text, SExpr.textItems, hhead, String.append_assoc]
  have hassert : ∀ e, (SExpr.app "assert" [e]).text = "(assert " ++ e.text ++ ")" := by
    intro e
    have hhead : "(assert " = "(" ++ "assert" ++ " " := by decide
    simp only [SExpr.app, SExpr.text, SExpr.textItems, hhead, String.append_assoc]
  have hend : [SExpr.app "check-sat" [], .app "get-model" []].map (fun e => e.text ++ "\n") =
      ["(check-sat)\n", "(get-model)\n"] := by decide
  have hline : ∀ v : String, v ++ ")" ++ "\n" = v ++ ")\n" := fun v => String.append_assoc ..
  rw [script, scriptLines, List.map_append, List.map_append, List.map_map, List.map_map, hend]
  simp only [Function.comp_def, hdeclare, hassert, hline]
  rfl

theorem bar_not_mem_declared {formulas : List Term} (hbars : ∀ f ∈ formulas, f.Barless) :
    ∀ c ∈ (declarations formulas).entries, '|' ∉ c.1.toList := by
  intro c hc
  obtain ⟨f, hf, hfree⟩ := mentioned_of_mem_declarations hc
  exact hbars f hf c.1 (Term.mentions_iff_freeAs.1 hfree).mem_names

/-- Formulas whose names have no bars, and whose free names have one sort each, have a closed script. -/
theorem script_closed {formulas : List Term} (hbars : ∀ f ∈ formulas, f.Barless) (hsorts : OneSort formulas) :
    ClosedBy formulas (declarations formulas).entries where
  lines := script_lines formulas
  mem_iff name s := by
    rw [hsorts.mem_declarations_iff]
    exact exists_congr fun f => and_congr_right fun _ => Term.mentions_iff_freeAs
  ordered := (declarations formulas).increasing.imp utf8_lt_of_lt
  apart := by
    refine (declarations formulas).increasing.imp_of_mem fun hc hd hlt => ?_
    rw [sameSymbol_iff_eq (bar_not_mem_declared hbars _ hc) (bar_not_mem_declared hbars _ hd)]
    exact String.ne_of_lt hlt
  closed f hf := by
    refine ⟨f.toSExpr, SExpr.read?_text f.legible_toSExpr, fun name hname => ?_⟩
    obtain ⟨⟨s, hs⟩, -⟩ := Term.mem_openNames_iff.1 hname
    rw [(hbars f hf).rename_unbarred] at hs
    exact List.mem_map.2 ⟨(name, s), hsorts.mem_declarations_iff.2 ⟨f, hf, hs⟩, rfl⟩
  bound_apart f hf name hname hbound c hc := by
    rw [sameSymbol_iff_eq (bar_not_mem_declared hbars c hc) (hbars f hf name hname)]
    rintro rfl
    obtain ⟨g, hg, hfree⟩ := mentioned_of_mem_declarations hc
    obtain ⟨scope, hpart, hscope⟩ := Term.mentions_iff_freeAs.1 hfree
    exact hbound g hg ⟨scope, c.2, hpart, hscope⟩

/-- A name that is free in one formula and bound with another sort in the other one, a name that is bound
only, and names that need quotes. -/
theorem script_closed_shadowed :
    let f := Term.thereIs [⟨"q", .real⟩] (.and [.eq (.realConst "q") (.realConst "p"),
      .forAll [⟨"flag", .real⟩] ((Term.realConst "flag").lt (.realConst "q"))])
    let g := Term.or [.boolConst "flag", (Term.realConst "p").ge (.const "" .int), .boolConst "zwölf ü"]
    (f.Barless ∧ g.Barless) ∧ OneSort [f, g] ∧
      ClosedBy [f, g] [("", .int), ("flag", .bool), ("p", .real), ("zwölf ü", .bool)] := by
  intro f g
  have hbars : ∀ t ∈ [f, g], t.Barless := by
    have hnames : ([f, g].flatMap Term.names).all (fun name => !name.toList.contains '|') = true := by decide +kernel
    intro t ht name hname
    simpa using List.all_eq_true.1 hnames name (List.mem_flatMap.2 ⟨t, ht, hname⟩)
  have hsorts : OneSort [f, g] := by
    have hfree : ∀ c ∈ [f, g].flatMap (Term.freeOccurrences []), ∀ d ∈ [f, g].flatMap (Term.freeOccurrences []),
        c.1 = d.1 → c.2 = d.2 := by decide +kernel
    intro t ht u hu name s s' hs hs'
    exact hfree (name, s) (List.mem_flatMap.2 ⟨t, ht, Term.mentions_iff_freeAs.2 hs⟩) (name, s')
      (List.mem_flatMap.2 ⟨u, hu, Term.mentions_iff_freeAs.2 hs'⟩) rfl
  have hdeclared : (declarations [f, g]).entries =
      [("", .int), ("flag", .bool), ("p", .real), ("zwölf ü", .bool)] := by decide +kernel
  have hclosed := script_closed hbars hsorts
  rw [hdeclared] at hclosed
  exact ⟨⟨hbars f (by simp), hbars g (by simp)⟩, hsorts, hclosed⟩

end RoadPolicy
