/-
Cutting a text into tokens loses nothing but blanks: the tokens, written one after the other, are the
text without its blanks. Conversely, words without delimiters that stand between delimiters are the
words that are found.
-/
import Mathlib.Tactic
import RoadPolicy.Language.Token

namespace RoadPolicy

/-- A text without its blanks. -/
def visible (cs : List Char) : List Char := cs.filter fun c => !isBlank c

namespace TokenKind

/-- One more character in front, without its place. -/
def consChar (c : Char) (kinds : List TokenKind) : List TokenKind :=
  match ofDelimiter? c with
  | some kind => kind :: kinds
  | none =>
    match kinds with
    | word w :: rest => word (String.singleton c ++ w) :: rest
    | kinds => word (String.singleton c) :: kinds

/-- The kinds of the tokens of a text without blanks. -/
def lex (cs : List Char) : List TokenKind := cs.foldr consChar []

/-- Tokens one after the other. -/
def written (kinds : List TokenKind) : List Char := kinds.flatMap (·.text.toList)

theorem text_of_ofDelimiter? {c : Char} {kind : TokenKind} (h : ofDelimiter? c = some kind) : kind.text.toList = [c] := by
  unfold ofDelimiter? at h
  split at h
  all_goals cases h
  all_goals rfl

/-- A character in front of the tokens is a character in front of what they write. -/
theorem written_consChar (c : Char) (kinds : List TokenKind) : written (consChar c kinds) = c :: written kinds := by
  unfold consChar
  split
  · rename_i kind hkind
    rw [written, List.flatMap_cons, text_of_ofDelimiter? hkind]
    rfl
  · split
    · simp [written, text]
    · simp [written, text]

/-- Cutting loses no character. -/
theorem written_lex (cs : List Char) : written (lex cs) = cs := by
  induction cs with
  | nil => rfl
  | cons c cs ih => rw [lex, List.foldr_cons, written_consChar, ← lex, ih]

/-! ## Words between delimiters -/

/-- The first token is not a word. -/
def StartsApart : List TokenKind → Prop
  | word _ :: _ => False
  | _ => True

theorem lex_append (cs ds : List Char) : lex (cs ++ ds) = cs.foldr consChar (lex ds) := List.foldr_append ..

theorem lex_cons {c : Char} {kind : TokenKind} (h : ofDelimiter? c = some kind) (ds : List Char) :
    lex (c :: ds) = kind :: lex ds := by
  rw [lex, List.foldr_cons, ← lex]
  unfold consChar
  rw [h]

theorem foldr_consChar_word {kinds : List TokenKind} (hapart : StartsApart kinds) : ∀ {c : Char} {cs : List Char},
    (∀ d ∈ c :: cs, ofDelimiter? d = none) → (c :: cs).foldr consChar kinds = word (String.ofList (c :: cs)) :: kinds
  | c, [], h => by
    have hc := h c (List.mem_cons_self ..)
    rw [List.foldr_cons, List.foldr_nil]
    unfold consChar
    rw [hc]
    cases kinds with
    | nil => rfl
    | cons kind kinds =>
      cases kind with
      | word w => exact hapart.elim
      | openParen | closeParen | comma => rfl
  | c, d :: cs, h => by
    have hc := h c (List.mem_cons_self ..)
    have happend : String.singleton c ++ String.ofList (d :: cs) = String.ofList (c :: d :: cs) := by
      apply String.toList_injective
      simp
    rw [List.foldr_cons, foldr_consChar_word hapart fun x hx => h x (List.mem_cons_of_mem _ hx)]
    unfold consChar
    simp only [hc, happend]

/-- A word without delimiters in front of a text that does not start with one is a token. -/
theorem lex_word {w : String} (hne : w ≠ "") (hw : ∀ c ∈ w.toList, ofDelimiter? c = none) {ds : List Char}
    (hds : StartsApart (lex ds)) : lex (w.toList ++ ds) = word w :: lex ds := by
  rw [lex_append]
  rcases hcs : w.toList with _ | ⟨c, cs⟩
  · exact absurd (String.toList_injective hcs) hne
  · rw [hcs] at hw
    rw [foldr_consChar_word hds hw, ← hcs, String.ofList_toList]

end TokenKind

/-! ## Tokens of a source -/

theorem map_fst_visibleFrom (offset : Nat) (cs : List Char) : (visibleFrom offset cs).map Prod.fst = visible cs := by
  induction cs generalizing offset with
  | nil => rfl
  | cons c cs ih =>
    rw [visibleFrom, visible, List.filter_cons]
    by_cases hc : isBlank c = true
    · simp only [hc, if_true, Bool.not_true, Bool.false_eq_true, if_false]
      exact ih _
    · simp only [hc, Bool.not_false, if_true, Bool.false_eq_true, if_false, List.map_cons]
      rw [ih]
      rfl

theorem map_kind_consChar (p : Char × Span) (tokens : List Token) :
    (Token.consChar p tokens).map (·.kind) = TokenKind.consChar p.1 (tokens.map (·.kind)) := by
  unfold Token.consChar TokenKind.consChar
  rcases TokenKind.ofDelimiter? p.1 with _ | kind
  · rcases tokens with _ | ⟨⟨kind, span⟩, rest⟩
    · rfl
    · cases kind <;> rfl
  · rfl

theorem map_kind_visibleFrom (offset : Nat) (cs : List Char) :
    ((visibleFrom offset cs).foldr Token.consChar []).map (·.kind) = TokenKind.lex (visible cs) := by
  rw [← map_fst_visibleFrom offset, TokenKind.lex, List.foldr_map]
  induction visibleFrom offset cs with
  | nil => rfl
  | cons p ps ih => rw [List.foldr_cons, List.foldr_cons, map_kind_consChar, ih]

/-- The kinds of the tokens depend only on the characters that are not blank. -/
theorem map_kind_tokenize (source : String) :
    (tokenize source).map (·.kind) = TokenKind.lex (visible source.toList) := map_kind_visibleFrom 0 _

/-- The tokens of a source write it without its blanks. -/
theorem written_tokenize (source : String) :
    TokenKind.written ((tokenize source).map (·.kind)) = visible source.toList := by
  rw [map_kind_tokenize, TokenKind.written_lex]

theorem visible_visible (cs : List Char) : visible (visible cs) = visible cs := by
  simp [visible, List.filter_filter]

end RoadPolicy
