/-
The tokens of a source and where they stand. A source is blanks, the stretch of the first token, blanks,
the stretch of the second token and so on, where a stretch starts and ends with a visible character and
shows its token when the blanks inside are left out. Putting one character in front of a source keeps
this layout, so it holds of every source; the places of tokens, in bytes, are read off it.
-/
import RoadPolicy.Proofs.Language.Lexing

namespace RoadPolicy

/-! ## Bytes and stretches -/

/-- The number of bytes of a text. -/
def byteSize (cs : List Char) : Nat := (String.ofList cs).utf8ByteSize

@[simp] theorem byteSize_nil : byteSize [] = 0 := rfl

@[simp] theorem byteSize_append (cs ds : List Char) : byteSize (cs ++ ds) = byteSize cs + byteSize ds := by
  rw [byteSize, String.ofList_append, String.utf8ByteSize_append, byteSize, byteSize]

@[simp] theorem byteSize_cons (c : Char) (cs : List Char) : byteSize (c :: cs) = c.utf8Size + byteSize cs := by
  have hone : byteSize [c] = c.utf8Size := by
    rw [byteSize, ← String.singleton_eq_ofList, String.utf8ByteSize_singleton]
  rw [← List.singleton_append, byteSize_append, hone]

theorem byteSize_toList (s : String) : byteSize s.toList = s.utf8ByteSize := by rw [byteSize, String.ofList_toList]

/-- A text that starts and ends with a visible character. -/
def Framed (cs : List Char) : Prop :=
  (∃ c ∈ cs.head?, isBlank c = false) ∧ ∃ c ∈ cs.getLast?, isBlank c = false

theorem Framed.singleton {c : Char} (h : isBlank c = false) : Framed [c] := ⟨⟨c, rfl, h⟩, c, rfl, h⟩

/-- More text in front, with a visible first character. -/
theorem Framed.cons {c : Char} (h : isBlank c = false) (gap : List Char) {cs : List Char} (hcs : Framed cs) :
    Framed (c :: (gap ++ cs)) := by
  obtain ⟨-, d, hd, hvisible⟩ := hcs
  refine ⟨⟨c, rfl, h⟩, d, ?_, hvisible⟩
  rw [← List.cons_append, List.getLast?_append, Option.mem_def.1 hd, Option.some_or]
  rfl

theorem Framed.byteSize_pos {cs : List Char} (h : Framed cs) : 0 < byteSize cs := by
  obtain ⟨⟨c, hc, -⟩, -⟩ := h
  obtain ⟨ds, rfl⟩ := List.head?_eq_some_iff.1 hc
  rw [byteSize_cons]
  exact Nat.add_pos_left c.utf8Size_pos _

theorem Framed.visible_ne_nil {cs : List Char} (h : Framed cs) : visible cs ≠ [] := by
  obtain ⟨⟨c, hc, hvisible⟩, -⟩ := h
  have hmem : c ∈ visible cs := List.mem_filter.2 ⟨List.mem_of_head? hc, by simp [hvisible]⟩
  exact List.ne_nil_of_mem hmem

/-! ## Layouts -/

/-- A text that starts at an offset is blanks and the stretches of tokens in turn. -/
inductive Laid : Nat → List Char → List Token → Prop
  | blank {offset : Nat} {gap : List Char} : (∀ c ∈ gap, isBlank c = true) → Laid offset gap []
  | token {offset : Nat} {gap stretch rest : List Char} {tok : Token} {tokens : List Token} :
      (∀ c ∈ gap, isBlank c = true) → Framed stretch → visible stretch = tok.kind.text.toList →
      tok.span.offset = offset + byteSize gap → tok.span.length = byteSize stretch →
      Laid tok.span.stop rest tokens → Laid offset (gap ++ (stretch ++ rest)) (tok :: tokens)

namespace Laid

variable {offset : Nat} {c : Char} {cs : List Char} {tokens : List Token}

/-- A blank in front makes the first gap longer. -/
theorem cons_blank (hc : isBlank c = true) (h : Laid (offset + c.utf8Size) cs tokens) :
    Laid offset (c :: cs) tokens := by
  cases h with
  | blank hgap => exact .blank (List.forall_mem_cons.2 ⟨hc, hgap⟩)
  | @token _ gap stretch rest tok tokens hgap hframed htext hoffset hlength hrest =>
    have hlonger : tok.span.offset = offset + byteSize (c :: gap) := by
      rw [hoffset, byteSize_cons]
      omega
    have hblanks : ∀ d ∈ c :: gap, isBlank d = true := List.forall_mem_cons.2 ⟨hc, hgap⟩
    exact .token hblanks hframed htext hlonger hlength hrest

/-- A visible character in front is a token of its own. -/
theorem cons_token (hc : isBlank c = false) {kind : TokenKind} (hkind : kind.text.toList = [c])
    (h : Laid (offset + c.utf8Size) cs tokens) : Laid offset (c :: cs) (⟨kind, ⟨offset, c.utf8Size⟩⟩ :: tokens) := by
  have htext : visible [c] = kind.text.toList := by simp [visible, hc, hkind]
  have hnone : ∀ d ∈ ([] : List Char), isBlank d = true := List.forall_mem_nil _
  exact .token hnone (.singleton hc) htext rfl (by simp) h

/-- A visible character in front of a word extends it, over the gap before it. -/
theorem cons_word (hc : isBlank c = false) {w : String} {span : Span}
    (h : Laid (offset + c.utf8Size) cs (⟨.word w, span⟩ :: tokens)) :
    Laid offset (c :: cs)
      (⟨.word (String.singleton c ++ w), Span.through ⟨offset, c.utf8Size⟩ span⟩ :: tokens) := by
  cases h with
  | @token _ gap stretch rest _ _ hgap hframed htext hoffset hlength hrest =>
    have hblank : visible gap = [] := by simpa [visible] using hgap
    have hvisible : visible (c :: (gap ++ stretch)) = (String.singleton c ++ w).toList := by
      have htail : visible (gap ++ stretch) = w.toList := by
        rw [visible, List.filter_append, ← visible, ← visible, hblank, htext]
        rfl
      rw [visible, List.filter_cons_of_pos (by simp [hc]), ← visible, htail]
      simp
    simp only at hoffset hlength hrest
    have hspan : Span.through ⟨offset, c.utf8Size⟩ span = ⟨offset, byteSize (c :: (gap ++ stretch))⟩ := by
      simp only [Span.through, Span.between, Span.stop, byteSize_cons, byteSize_append, hoffset, hlength]
      congr 1
      omega
    have hstop : (Span.mk offset (byteSize (c :: (gap ++ stretch)))).stop = span.stop := by
      simp only [Span.stop, byteSize_cons, byteSize_append, hoffset, hlength]
      omega
    have hshape : c :: (gap ++ (stretch ++ rest)) = [] ++ ((c :: (gap ++ stretch)) ++ rest) := by simp
    rw [hspan, hshape]
    exact .token (List.forall_mem_nil _) (hframed.cons hc gap) hvisible rfl rfl (hstop ▸ hrest)

theorem consChar (hc : isBlank c = false) (h : Laid (offset + c.utf8Size) cs tokens) :
    Laid offset (c :: cs) (Token.consChar (c, ⟨offset, c.utf8Size⟩) tokens) := by
  unfold Token.consChar
  split
  · rename_i kind hkind
    exact h.cons_token hc (TokenKind.text_of_ofDelimiter? hkind)
  · split
    · exact h.cons_word hc
    · exact h.cons_token hc (by simp [TokenKind.text])

/-- Every text is laid out as its tokens say. -/
theorem of_visibleFrom (offset : Nat) (cs : List Char) :
    Laid offset cs ((visibleFrom offset cs).foldr Token.consChar []) := by
  induction cs generalizing offset with
  | nil => exact .blank (List.forall_mem_nil _)
  | cons c cs ih =>
    rw [visibleFrom]
    by_cases hc : isBlank c = true
    · rw [if_pos hc]
      exact (ih _).cons_blank hc
    · rw [if_neg hc, List.foldr_cons]
      exact (ih _).consChar (Bool.not_eq_true _ ▸ hc)

/-! ## What a layout says -/

/-- Tokens stand one after the other. -/
theorem places (h : Laid offset cs tokens) :
    (∀ tok ∈ tokens, offset ≤ tok.span.offset) ∧
      tokens.Pairwise fun s t => s.span.offset < t.span.offset ∧ s.span.stop ≤ t.span.offset := by
  induction h with
  | blank => exact ⟨List.forall_mem_nil _, .nil⟩
  | @token offset gap stretch rest tok tokens _ hframed _ hoffset hlength _ ih =>
    have hpos := hframed.byteSize_pos
    have hstop : tok.span.stop = tok.span.offset + byteSize stretch := by rw [Span.stop, hlength]
    refine ⟨List.forall_mem_cons.2 ⟨by omega, fun t ht => ?_⟩, List.pairwise_cons.2 ⟨fun t ht => ?_, ih.2⟩⟩
    · have := ih.1 t ht
      omega
    · have := ih.1 t ht
      omega

/-- The stretch of a token: what stands at its place. -/
theorem stretch (h : Laid offset cs tokens) : ∀ tok ∈ tokens, ∃ before stretch after, cs = before ++ stretch ++ after ∧
    tok.span.offset = offset + byteSize before ∧ tok.span.length = byteSize stretch ∧ Framed stretch ∧
    visible stretch = tok.kind.text.toList := by
  induction h with
  | blank => exact List.forall_mem_nil _
  | @token offset gap stretch rest tok tokens _ hframed htext hoffset hlength _ ih =>
    refine List.forall_mem_cons.2 ⟨⟨gap, stretch, rest, by simp, hoffset, hlength, hframed, htext⟩, fun t ht => ?_⟩
    obtain ⟨before, inner, after, rfl, hbefore, hinner⟩ := ih t ht
    refine ⟨gap ++ stretch ++ before, inner, after, by simp, ?_, hinner⟩
    rw [hbefore, Span.stop, hoffset, hlength, byteSize_append, byteSize_append]
    omega

/-- A character of two texts one after the other stands in the first or in the second one. -/
theorem append_eq_append_cons {xs ys before after : List Char} (h : xs ++ ys = before ++ c :: after) :
    (∃ back, xs = before ++ c :: back) ∨ ∃ front, before = xs ++ front ∧ ys = front ++ c :: after := by
  rcases List.append_eq_append_iff.1 h with hfront | ⟨back, rfl, hback⟩
  · exact .inr hfront
  · rcases back with _ | ⟨d, back⟩
    · exact .inr ⟨[], by simp, hback.symm⟩
    · obtain ⟨rfl, -⟩ := List.cons.inj hback
      exact .inl ⟨back, rfl⟩

/-- What stands at no place of a token is blank. -/
theorem outside (h : Laid offset cs tokens) : ∀ {before after : List Char} {c : Char}, cs = before ++ c :: after →
    isBlank c = true ∨ ∃ tok ∈ tokens, tok.span.offset ≤ offset + byteSize before ∧
      offset + byteSize before + c.utf8Size ≤ tok.span.stop := by
  induction h with
  | blank hgap =>
    rintro before after c rfl
    exact .inl (hgap c (by simp))
  | @token offset gap stretch rest tok tokens hgap _ _ hoffset hlength _ ih =>
    intro before after c hcs
    have hstop : tok.span.stop = offset + byteSize gap + byteSize stretch := by rw [Span.stop, hoffset, hlength]
    rcases append_eq_append_cons hcs with ⟨back, rfl⟩ | ⟨front, rfl, hfront⟩
    · exact .inl (hgap c (by simp))
    rcases append_eq_append_cons hfront with ⟨back, rfl⟩ | ⟨later, rfl, hlater⟩
    · refine .inr ⟨tok, List.mem_cons_self, ?_⟩
      simp only [byteSize_append, byteSize_cons] at hstop ⊢
      omega
    · rcases ih hlater with hblank | ⟨t, ht, hplace⟩
      · exact .inl hblank
      · refine .inr ⟨t, List.mem_cons_of_mem _ ht, ?_⟩
        simp only [byteSize_append]
        omega

end Laid

/-! ## Words -/

namespace TokenKind

theorem ofDelimiter?_eq_none_iff {c : Char} : ofDelimiter? c = none ↔ c ∉ ['(', ')', ','] := by
  unfold ofDelimiter?
  split <;> simp_all

def isWord : TokenKind → Bool
  | word _ => true
  | _ => false

theorem isWord_of_ofDelimiter? {c : Char} {kind : TokenKind} (h : ofDelimiter? c = some kind) :
    kind.isWord = false := by
  unfold ofDelimiter? at h
  split at h
  all_goals cases h
  all_goals rfl

/-- One more character is a delimiter, extends a word or starts one where there is none. -/
theorem consChar_cases (c : Char) (kinds : List TokenKind) :
    (∃ kind, ofDelimiter? c = some kind ∧ consChar c kinds = kind :: kinds) ∨
      ofDelimiter? c = none ∧
        ((∃ w rest, kinds = word w :: rest ∧ consChar c kinds = word (String.singleton c ++ w) :: rest) ∨
          StartsApart kinds ∧ consChar c kinds = word (String.singleton c) :: kinds) := by
  unfold consChar
  rcases ofDelimiter? c with _ | kind
  · refine .inr ⟨rfl, ?_⟩
    rcases kinds with _ | ⟨kind, rest⟩
    · exact .inr ⟨trivial, rfl⟩
    · cases kind with
      | word w => exact .inl ⟨w, rest, rfl, rfl⟩
      | openParen | closeParen | comma => exact .inr ⟨trivial, rfl⟩
  · exact .inl ⟨kind, rfl, rfl⟩

/-- No word holds a delimiter. -/
theorem ofDelimiter?_of_mem_lex {cs : List Char} : ∀ {w : String}, word w ∈ lex cs → ∀ c ∈ w.toList,
    ofDelimiter? c = none := by
  induction cs with
  | nil => exact fun hw => absurd hw List.not_mem_nil
  | cons d cs ih =>
    intro w hw
    rw [lex, List.foldr_cons, ← lex] at hw
    rcases consChar_cases d (lex cs) with ⟨kind, hkind, hcons⟩ | ⟨hd, ⟨u, rest, hlex, hcons⟩ | ⟨-, hcons⟩⟩
    · rw [hcons, List.mem_cons] at hw
      rcases hw with rfl | hw
      · cases isWord_of_ofDelimiter? hkind
      · exact ih hw
    · rw [hcons, List.mem_cons] at hw
      rcases hw with hw | hw
      · have hu : word u ∈ lex cs := hlex ▸ List.mem_cons_self
        rw [word.inj hw, String.toList_append, String.toList_singleton, List.singleton_append, List.forall_mem_cons]
        exact ⟨hd, ih hu⟩
      · exact ih (hlex ▸ List.mem_cons_of_mem _ hw)
    · rw [hcons, List.mem_cons] at hw
      rcases hw with hw | hw
      · rw [word.inj hw, String.toList_singleton, List.forall_mem_singleton]
        exact hd
      · exact ih hw

/-- No word stands right after a word. -/
theorem isChain_lex (cs : List Char) : (lex cs).IsChain fun k l => ¬ (k.isWord = true ∧ l.isWord = true) := by
  induction cs with
  | nil => exact .nil
  | cons d cs ih =>
    rw [lex, List.foldr_cons, ← lex]
    rcases consChar_cases d (lex cs) with ⟨kind, hkind, hcons⟩ | ⟨-, ⟨u, rest, hlex, hcons⟩ | ⟨hapart, hcons⟩⟩
    · rw [hcons, List.isChain_cons]
      refine ⟨fun k _ hwords => ?_, ih⟩
      rw [isWord_of_ofDelimiter? hkind] at hwords
      cases hwords.1
    · -- the word that is extended stood in its place before
      rw [hlex, List.isChain_cons] at ih
      rw [hcons, List.isChain_cons]
      exact ih
    · rw [hcons, List.isChain_cons]
      refine ⟨fun k hk hwords => ?_, ih⟩
      obtain ⟨rest, hrest⟩ := List.head?_eq_some_iff.1 hk
      rw [hrest] at hapart
      cases k with
      | word w => exact hapart
      | openParen | closeParen | comma => cases hwords.2

end TokenKind

/-! ## Sources -/

/-- A span is the place of a part of a source, counted in bytes; it starts and ends between two characters. -/
def Span.IsPlaceOf (span : Span) (source part : String) : Prop :=
  ∃ before after, source = before ++ part ++ after ∧ before.utf8ByteSize = span.offset ∧
    part.utf8ByteSize = span.length

/-- The tokens of a source, for every source. Their texts one after the other are the source without its blanks. A word
is not empty and holds neither delimiters nor blanks, and no two words are neighbours. The spans are places of parts of
the source, strictly increasing and disjoint; each part starts and ends with a visible character and is the text of its
token, blanks apart; and every character outside of all spans is blank. Sources that differ in blanks only have tokens
of the same kinds. -/
theorem tokenize_layout (source : String) :
    (tokenize source).flatMap (·.kind.text.toList) = visible source.toList ∧
    (∀ tok ∈ tokenize source, ∀ w, tok.kind = .word w →
      w ≠ "" ∧ ∀ c ∈ w.toList, c ∉ ['(', ')', ','] ∧ isBlank c = false) ∧
    (tokenize source).IsChain (fun s t => ¬ (s.kind.isWord = true ∧ t.kind.isWord = true)) ∧
    (tokenize source).Pairwise (fun s t => s.span.offset < t.span.offset ∧ s.span.stop ≤ t.span.offset) ∧
    (∀ tok ∈ tokenize source, ∃ part, tok.span.IsPlaceOf source part ∧ Framed part.toList ∧
      visible part.toList = tok.kind.text.toList) ∧
    (∀ before c after, source = before ++ String.singleton c ++ after → isBlank c = true ∨
      ∃ tok ∈ tokenize source, tok.span.offset ≤ before.utf8ByteSize ∧
        before.utf8ByteSize + c.utf8Size ≤ tok.span.stop) ∧
    ∀ other : String, visible other.toList = visible source.toList →
      (tokenize other).map (·.kind) = (tokenize source).map (·.kind) := by
  have hlaid : Laid 0 source.toList (tokenize source) := .of_visibleFrom 0 source.toList
  have hkinds := map_kind_tokenize source
  refine ⟨?_, fun tok htok w hw => ?_, ?_, hlaid.places.2, fun tok htok => ?_, fun before c after hsource => ?_, ?_⟩
  · rw [← written_tokenize, TokenKind.written, List.flatMap_map]
  · obtain ⟨-, part, -, -, -, -, hframed, hvisible⟩ := hlaid.stretch tok htok
    rw [hw] at hvisible
    have hlex : .word w ∈ TokenKind.lex (visible source.toList) := by
      rw [← hkinds, ← hw]
      exact List.mem_map_of_mem htok
    refine ⟨?_, fun c hc => ⟨TokenKind.ofDelimiter?_eq_none_iff.1 (TokenKind.ofDelimiter?_of_mem_lex hlex c hc), ?_⟩⟩
    · rintro rfl
      exact hframed.visible_ne_nil hvisible
    · have hc : c ∈ visible part := hvisible ▸ hc
      simpa using (List.mem_filter.1 hc).2
  · have hchain := TokenKind.isChain_lex (visible source.toList)
    rw [← hkinds] at hchain
    exact (List.isChain_map _).1 hchain
  · obtain ⟨before, part, after, hsource, hoffset, hlength, hframed, hvisible⟩ := hlaid.stretch tok htok
    refine ⟨String.ofList part, ⟨String.ofList before, String.ofList after, ?_, ?_, hlength.symm⟩, ?_, ?_⟩
    · apply String.toList_injective
      simpa using hsource
    · rw [hoffset, Nat.zero_add, byteSize]
    · rwa [String.toList_ofList]
    · rwa [String.toList_ofList]
  · have hchars : source.toList = before.toList ++ c :: after.toList := by
      rw [hsource]
      simp
    rcases hlaid.outside hchars with hblank | ⟨tok, htok, hplace⟩
    · exact .inl hblank
    · rw [Nat.zero_add, byteSize_toList] at hplace
      exact .inr ⟨tok, htok, hplace⟩
  · intro other hother
    rw [map_kind_tokenize, hother, hkinds]

/-- A word with a letter of two bytes and a blank of three bytes inside. -/
theorem tokenize_layout_wide_blank :
    let source := "> =(é\u3000x, y)"
    let tokens : List Token := [⟨.word ">=", ⟨0, 3⟩⟩, ⟨.openParen, ⟨3, 1⟩⟩, ⟨.word "éx", ⟨4, 6⟩⟩, ⟨.comma, ⟨10, 1⟩⟩,
      ⟨.word "y", ⟨12, 1⟩⟩, ⟨.closeParen, ⟨13, 1⟩⟩]
    tokenize source = tokens ∧
      (∃ part, (Span.mk 4 6).IsPlaceOf source part ∧ Framed part.toList ∧ visible part.toList = ['é', 'x']) ∧
      (tokenize ">=(éx,y)").map (·.kind) = tokens.map (·.kind) := by
  intro source tokens
  have htokens : tokenize source = tokens := by decide
  obtain ⟨-, -, -, -, hpart, -, hkinds⟩ := tokenize_layout source
  rw [htokens] at hpart hkinds
  exact ⟨htokens, hpart ⟨.word "éx", ⟨4, 6⟩⟩ (by simp [tokens]), hkinds ">=(éx,y)" (by decide)⟩

end RoadPolicy
