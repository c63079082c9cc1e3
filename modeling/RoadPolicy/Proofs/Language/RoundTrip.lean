/-
Printing and reading are inverse. What has been read is printed as its source without blanks, and
reading that again gives the same arena but for the places. What has been built by hand is read back
from its text, as long as its operators have arguments and its leaves are words that are read as
these leaves. Both rest on one fact: tokens of the kinds that write an expression derive it.
-/
import Mathlib
import RoadPolicy.Proofs.Language.Forest
import RoadPolicy.Proofs.Language.Lexing
import RoadPolicy.Proofs.Language.ParserGrammar

namespace RoadPolicy

/-! ## Expressions without places -/

def Node.unplaced (n : Node) : Node := { n with span := ⟨0, 0⟩ }

/-- The arena with all places forgotten. -/
def Arena.unplaced (a : Arena) : Arena := { a with nodes := a.nodes.map Node.unplaced }

namespace Expression

mutual

/-- The expression with all places forgotten. -/
def unplaced : Expression → Expression
  | node head _ args => .node head ⟨0, 0⟩ (unplacedAll args)

def unplacedAll : List Expression → List Expression
  | [] => []
  | e :: es => e.unplaced :: unplacedAll es

end

theorem sizeAll_unplacedAll {es : List Expression} (h : ∀ e ∈ es, e.unplaced.size = e.size) :
    sizeAll (unplacedAll es) = sizeAll es := by
  induction es with
  | nil => rfl
  | cons e es ih =>
    rw [List.forall_mem_cons] at h
    rw [unplacedAll, sizeAll, sizeAll, h.1, ih h.2]

theorem size_unplaced (e : Expression) : e.unplaced.size = e.size := by
  induction e with
  | node head span args ih => rw [unplaced, size, size, sizeAll_unplacedAll ih]

theorem positions_unplacedAll (es : List Expression) : ∀ base, positions base (unplacedAll es) = positions base es := by
  induction es with
  | nil => intro base; rfl
  | cons e es ih =>
    intro base
    rw [unplacedAll, positions, positions, ih, size_unplaced]

theorem nodesAll_unplacedAll {es : List Expression} (h : ∀ e ∈ es, ∀ parent base,
    e.unplaced.nodes parent base = (e.nodes parent base).map Node.unplaced) (parent : Option NodeId) :
    ∀ base, nodesAll parent base (unplacedAll es) = (nodesAll parent base es).map Node.unplaced := by
  induction es with
  | nil => intro base; rfl
  | cons e es ih =>
    intro base
    rw [List.forall_mem_cons] at h
    rw [unplacedAll, nodesAll, nodesAll, h.1, ih h.2, size_unplaced, List.map_append]

theorem nodes_unplaced (e : Expression) : ∀ parent base,
    e.unplaced.nodes parent base = (e.nodes parent base).map Node.unplaced := by
  induction e with
  | node head span args ih =>
    intro parent base
    rw [unplaced, nodes, nodes, positions_unplacedAll, nodesAll_unplacedAll ih, List.map_cons]
    rfl

/-- Numbering does not look at places. -/
theorem arena_unplaced (e : Expression) : e.unplaced.arena = e.arena.unplaced := by
  rw [arena, arena, Arena.unplaced, nodes_unplaced]
  simp

end Expression

theorem Tree.agreesAll_iff {cs : List Tree}
    (h : ∀ c ∈ cs, ∀ d, c.agrees d = true ↔ c.expression.unplaced = d.expression.unplaced) : ∀ {ds : List Tree},
    agreesAll cs ds = true ↔
      Expression.unplacedAll (expressionAll cs) = Expression.unplacedAll (expressionAll ds) := by
  induction cs with
  | nil =>
    intro ds
    cases ds <;> simp [agreesAll, expressionAll, Expression.unplacedAll]
  | cons c cs ih =>
    intro ds
    rw [List.forall_mem_cons] at h
    cases ds with
    | nil => simp [agreesAll, expressionAll, Expression.unplacedAll]
    | cons d ds => simp [agreesAll, expressionAll, Expression.unplacedAll, h.1 d, ih h.2]

/-- Trees agree if they are the same but for indices and places. -/
theorem Tree.agrees_iff (t : Tree) : ∀ u, t.agrees u = true ↔ t.expression.unplaced = u.expression.unplaced := by
  induction t with
  | node id head span children ih =>
    rintro ⟨id', head', span', children'⟩
    rw [agrees, Bool.and_eq_true, beq_iff_eq, agreesAll_iff ih, expression, expression, Expression.unplaced,
      Expression.unplaced, Expression.node.injEq]
    simp

/-! ## The tokens of an expression -/

namespace Expression

mutual

/-- The kinds of the tokens that write an expression. -/
def kinds : Expression → List TokenKind
  | node head _ [] => [.word head.text]
  | node head _ (e :: es) => .word head.text :: .openParen :: (e.kinds ++ (kindsRest es ++ [.closeParen]))

/-- The arguments after the first one. -/
def kindsRest : List Expression → List TokenKind
  | [] => []
  | e :: es => .comma :: (e.kinds ++ kindsRest es)

end

end Expression

open TokenKind (written)

@[simp] theorem TokenKind.written_append (ks ls : List TokenKind) : written (ks ++ ls) = written ks ++ written ls :=
  List.flatMap_append

@[simp] theorem TokenKind.written_cons (k : TokenKind) (ks : List TokenKind) :
    written (k :: ks) = k.text.toList ++ written ks := List.flatMap_cons

@[simp] theorem TokenKind.written_nil : written [] = [] := rfl

theorem Tree.textRest_eq {ts : List Tree} (h : ∀ t ∈ ts, t.text.toList = written t.expression.kinds) :
    (textRest ts).toList = written (Expression.kindsRest (expressionAll ts)) := by
  induction ts with
  | nil => rfl
  | cons t ts ih =>
    rw [List.forall_mem_cons] at h
    rw [textRest, expressionAll, Expression.kindsRest]
    simp [h.1, ih h.2, TokenKind.text]

/-- A tree is printed as its tokens. -/
theorem Tree.text_eq (t : Tree) : t.text.toList = written t.expression.kinds := by
  induction t with
  | node id head span children ih =>
    cases children with
    | nil =>
      rw [text, expression, expressionAll, Expression.kinds]
      simp [TokenKind.text]
    | cons c cs =>
      rw [List.forall_mem_cons] at ih
      rw [text, expression, expressionAll, Expression.kinds]
      simp [ih.1, textRest_eq ih.2, TokenKind.text]

/-! ## Derivations and kinds -/

section

variable {resolves : String → Bool}

theorem LeafWord.text_eq {word : String} {head : Head} (h : LeafWord resolves word head) : head.text = word := by
  cases h with
  | @literal l hwrites =>
    cases l with
    | int digits => exact hwrites.1
    | decimal digits => exact hwrites.1
    | bool b => cases b <;> exact hwrites.symm
  | marker _ hm => exact hm
  | name => rfl

/-- An expression that its own tokens derive: operators have arguments, and leaves are words that
are read as these leaves. -/
inductive Expression.Writable (resolves : String → Bool) : Expression → Prop
  | leaf {head : Head} {span : Span} : (∀ op : Operator, op.text ≠ head.text) → LeafWord resolves head.text head →
      Writable resolves (.node head span [])
  | call {op : Operator} {span : Span} {args : List Expression} : args ≠ [] → (∀ e ∈ args, Writable resolves e) →
      Writable resolves (.node (.operator op) span args)

mutual

theorem Derives.kinds_eq : ∀ {tokens : List Token} {e : Expression}, Derives resolves tokens e →
    tokens.map (·.kind) = e.kinds
  | _, _, .leaf _ hleaf => by
    rw [Expression.kinds, hleaf.text_eq]
    rfl
  | _, _, .call hargs => by
    obtain ⟨e, es, rfl, hkinds⟩ := hargs.kinds_eq
    rw [Expression.kinds, List.map_cons, List.map_cons, List.map_append, hkinds, List.append_assoc]
    rfl

theorem DerivesArgs.kinds_eq : ∀ {tokens : List Token} {args : List Expression}, DerivesArgs resolves tokens args →
    ∃ e es, args = e :: es ∧ tokens.map (·.kind) = e.kinds ++ Expression.kindsRest es
  | _, _, .one he => ⟨_, [], rfl, by rw [he.kinds_eq, Expression.kindsRest, List.append_nil]⟩
  | _, _, .more he hes => by
    obtain ⟨f, fs, rfl, hkinds⟩ := hes.kinds_eq
    refine ⟨_, f :: fs, rfl, ?_⟩
    rw [List.map_append, List.map_cons, he.kinds_eq, hkinds, Expression.kindsRest]

end

mutual

theorem Derives.writable : ∀ {tokens : List Token} {e : Expression}, Derives resolves tokens e → e.Writable resolves
  | _, _, .leaf hop hleaf => .leaf (by rw [hleaf.text_eq]; exact hop) (by rw [hleaf.text_eq]; exact hleaf)
  | _, _, .call hargs => .call hargs.ne_nil hargs.writable

theorem DerivesArgs.writable : ∀ {tokens : List Token} {args : List Expression}, DerivesArgs resolves tokens args →
    ∀ e ∈ args, e.Writable resolves
  | _, _, .one he => List.forall_mem_singleton.2 he.writable
  | _, _, .more he hes => List.forall_mem_cons.2 ⟨he.writable, hes.writable⟩

end

/-- Tokens of the kinds of an expression derive it, but for the places. -/
def Expression.Readable (resolves : String → Bool) (e : Expression) : Prop :=
  ∀ tokens : List Token, tokens.map (·.kind) = e.kinds → ∃ e', Derives resolves tokens e' ∧ e'.unplaced = e.unplaced

theorem derivesArgs_of_kinds : ∀ {es : List Expression} {e : Expression}, (∀ f ∈ e :: es, f.Readable resolves) →
    ∀ tokens : List Token, tokens.map (·.kind) = e.kinds ++ Expression.kindsRest es →
      ∃ args, DerivesArgs resolves tokens args ∧ Expression.unplacedAll args = Expression.unplacedAll (e :: es)
  | [], e, h, tokens, hk => by
    rw [Expression.kindsRest, List.append_nil] at hk
    obtain ⟨e', he', hsame⟩ := h e (List.mem_cons_self ..) tokens hk
    exact ⟨[e'], .one he', by simp [Expression.unplacedAll, hsame]⟩
  | f :: fs, e, h, tokens, hk => by
    rw [List.forall_mem_cons] at h
    rw [Expression.kindsRest] at hk
    obtain ⟨first, rest, rfl, hfirst, hrest⟩ := List.map_eq_append_iff.1 hk
    obtain ⟨⟨kind, span⟩, others, rfl, rfl, hothers⟩ := List.map_eq_cons_iff.1 hrest
    obtain ⟨e', he', hsame⟩ := h.1 first hfirst
    obtain ⟨args, hargs, hall⟩ := derivesArgs_of_kinds h.2 others hothers
    refine ⟨e' :: args, .more he' hargs, ?_⟩
    rw [Expression.unplacedAll, hall, hsame]
    rfl

theorem Expression.Writable.readable {e : Expression} (h : e.Writable resolves) : e.Readable resolves := by
  induction h with
  | @leaf head span hop hleaf =>
    intro tokens hk
    rw [kinds] at hk
    obtain ⟨⟨kind, span'⟩, rest, rfl, rfl, hrest⟩ := List.map_eq_cons_iff.1 hk
    rw [List.map_eq_nil_iff] at hrest
    subst hrest
    exact ⟨.node head span' [], .leaf hop hleaf, rfl⟩
  | @call op span args hne _ ih =>
    intro tokens hk
    cases args with
    | nil => exact absurd rfl hne
    | cons e es =>
      rw [kinds, ← List.append_assoc] at hk
      obtain ⟨⟨_, span'⟩, afterWord, rfl, rfl, hword⟩ := List.map_eq_cons_iff.1 hk
      obtain ⟨⟨_, opening⟩, afterOpen, rfl, rfl, hopen⟩ := List.map_eq_cons_iff.1 hword
      obtain ⟨inner, last, rfl, hinner, hlast⟩ := List.map_eq_append_iff.1 hopen
      obtain ⟨⟨_, closing⟩, afterClose, rfl, rfl, hclose⟩ := List.map_eq_cons_iff.1 hlast
      rw [List.map_eq_nil_iff] at hclose
      subst hclose
      obtain ⟨args', hargs', hsame⟩ := derivesArgs_of_kinds ih inner hinner
      refine ⟨.node (.operator op) span' args', .call hargs', ?_⟩
      rw [unplaced, unplaced, hsame]

end

/-! ## Cutting what is printed -/

/-- A word that stays whole: not empty, without delimiters and without blanks. -/
def IsWholeWord (w : String) : Prop :=
  w ≠ "" ∧ ∀ c ∈ w.toList, TokenKind.ofDelimiter? c = none ∧ isBlank c = false

theorem isWholeWord_of_all {w : String} (hne : w ≠ "")
    (h : (w.toList.all fun c => (TokenKind.ofDelimiter? c).isNone && !isBlank c) = true) : IsWholeWord w := by
  refine ⟨hne, fun c hc => ?_⟩
  have hchar := List.all_eq_true.1 h c hc
  simpa using hchar

theorem Operator.isWholeWord_text (op : Operator) : IsWholeWord op.text := by
  cases op <;> exact isWholeWord_of_all (by decide) (by decide)

namespace Expression

/-- All words of the expression stay whole. -/
def Whole (e : Expression) : Prop := ∀ w, .word w ∈ e.kinds → IsWholeWord w

theorem mem_kindsRest {f : Expression} {k : TokenKind} : ∀ {es : List Expression}, f ∈ es → k ∈ f.kinds → k ∈ kindsRest es
  | e :: es, hf, hk => by
    rw [kindsRest]
    rcases List.mem_cons.1 hf with rfl | hf
    · simp [hk]
    · simp [mem_kindsRest hf hk]

theorem startsApart_rest (es : List Expression) (ls : List TokenKind) :
    TokenKind.StartsApart (kindsRest es ++ .closeParen :: ls) := by
  cases es <;> trivial

theorem lex_rest {es : List Expression} (h : ∀ e ∈ es, ∀ {ds : List Char}, TokenKind.StartsApart (TokenKind.lex ds) →
      TokenKind.lex (written e.kinds ++ ds) = e.kinds ++ TokenKind.lex ds) (ds : List Char) :
    TokenKind.lex (written (kindsRest es) ++ ')' :: ds) = kindsRest es ++ .closeParen :: TokenKind.lex ds := by
  induction es with
  | nil => exact TokenKind.lex_cons rfl ds
  | cons e es ih =>
    rw [List.forall_mem_cons] at h
    have hrest := ih h.2
    have hapart := startsApart_rest es (TokenKind.lex ds)
    rw [← hrest] at hapart
    have hcomma : written (kindsRest (e :: es)) ++ ')' :: ds =
        ',' :: (written e.kinds ++ (written (kindsRest es) ++ ')' :: ds)) := by
      simp [kindsRest, TokenKind.text]
    rw [hcomma, TokenKind.lex_cons rfl, h.1 hapart, hrest, kindsRest]
    simp

/-- Cutting what an expression writes gives its tokens, whatever follows apart. -/
theorem lex_kinds (e : Expression) : e.Whole → ∀ {ds : List Char}, TokenKind.StartsApart (TokenKind.lex ds) →
    TokenKind.lex (written e.kinds ++ ds) = e.kinds ++ TokenKind.lex ds := by
  induction e with
  | node head span args ih =>
    intro hwhole ds hds
    cases args with
    | nil =>
      obtain ⟨hne, hchars⟩ := hwhole head.text (by simp [kinds])
      have hword := TokenKind.lex_word hne (fun c hc => (hchars c hc).1) hds
      simpa [kinds, TokenKind.text] using hword
    | cons e es =>
      obtain ⟨hne, hchars⟩ := hwhole head.text (by simp [kinds])
      have hparts : ∀ f ∈ e :: es, f.Whole := by
        intro f hf w hw
        refine hwhole w ?_
        rw [kinds]
        rcases List.mem_cons.1 hf with rfl | hf
        · simp [hw]
        · have hmem : TokenKind.word w ∈ kindsRest es := mem_kindsRest hf hw
          simp [hmem]
      have hargs : ∀ f ∈ e :: es, ∀ {ds : List Char}, TokenKind.StartsApart (TokenKind.lex ds) →
          TokenKind.lex (written f.kinds ++ ds) = f.kinds ++ TokenKind.lex ds :=
        fun f hf => ih f hf (hparts f hf)
      rw [List.forall_mem_cons] at hargs
      have hrest := lex_rest hargs.2 ds
      have hapart := startsApart_rest es (TokenKind.lex ds)
      rw [← hrest] at hapart
      have hfirst := hargs.1 hapart
      have hopen : TokenKind.lex ('(' :: (written e.kinds ++ (written (kindsRest es) ++ ')' :: ds))) =
          .openParen :: TokenKind.lex (written e.kinds ++ (written (kindsRest es) ++ ')' :: ds)) :=
        TokenKind.lex_cons rfl _
      have hword : TokenKind.lex (head.text.toList ++ '(' :: (written e.kinds ++ (written (kindsRest es) ++ ')' :: ds))) =
          .word head.text :: TokenKind.lex ('(' :: (written e.kinds ++ (written (kindsRest es) ++ ')' :: ds))) :=
        TokenKind.lex_word hne (fun c hc => (hchars c hc).1) (by rw [hopen]; trivial)
      rw [hopen, hfirst, hrest] at hword
      simpa [kinds, TokenKind.text] using hword

theorem visible_kinds {e : Expression} (h : e.Whole) : visible (written e.kinds) = written e.kinds := by
  refine List.filter_eq_self.2 fun c hc => ?_
  obtain ⟨k, hk, hc⟩ := List.mem_flatMap.1 hc
  cases k with
  | word w =>
    rw [((h w hk).2 c hc).2]
    rfl
  | openParen | closeParen | comma =>
    rw [List.mem_singleton.1 hc]
    decide

end Expression

/-! ## Printing and reading -/

variable {resolves : String → Bool}

theorem parse_of_kinds {source : String} {e : Expression} (h : e.Writable resolves)
    (hk : (tokenize source).map (·.kind) = e.kinds) :
    ∃ e' : Expression, parse resolves source = .ok e'.arena ∧ e'.unplaced = e.unplaced := by
  obtain ⟨e', he', hsame⟩ := h.readable (tokenize source) hk
  exact ⟨e', parseTokens_eq_ok_iff.2 ⟨e', he', rfl⟩, hsame⟩

/-- A node that is read back: an operator with arguments, or a leaf without any whose text is one word
that is read as the leaf. -/
def Node.Writable (resolves : String → Bool) (n : Node) : Prop :=
  (∃ op, n.head = .operator op) ∧ n.children ≠ [] ∨
    n.children = [] ∧ IsWholeWord n.head.text ∧ Operator.ofWord? n.head.text = none ∧
      leafOfWord? resolves n.head.text = some n.head

theorem Expression.whole_rest {w : String} : ∀ {es : List Expression}, (∀ e ∈ es, e.Whole) → .word w ∈ kindsRest es →
    IsWholeWord w
  | e :: es, h, hw => by
    rw [List.forall_mem_cons] at h
    simp only [kindsRest, List.mem_cons, reduceCtorEq, false_or, List.mem_append] at hw
    rcases hw with hw | hw
    · exact h.1 w hw
    · exact whole_rest h.2 hw

theorem Expression.whole_node {head : Head} {span : Span} {args : List Expression} (hhead : IsWholeWord head.text)
    (hargs : ∀ e ∈ args, e.Whole) : (node head span args).Whole := by
  intro w hw
  cases args with
  | nil =>
    rw [kinds, List.mem_singleton, TokenKind.word.injEq] at hw
    exact hw ▸ hhead
  | cons e es =>
    rw [List.forall_mem_cons] at hargs
    simp only [kinds, List.mem_cons, TokenKind.word.injEq, reduceCtorEq, false_or, List.mem_append, List.not_mem_nil,
      or_false] at hw
    rcases hw with rfl | hw | hw
    · exact hhead
    · exact hargs.1 w hw
    · exact whole_rest hargs.2 hw

theorem Tree.mem_expressionAll {e : Expression} : ∀ {ts : List Tree}, e ∈ expressionAll ts → ∃ t ∈ ts, t.expression = e
  | t :: ts, h => by
    rw [expressionAll] at h
    rcases List.mem_cons.1 h with rfl | h
    · exact ⟨t, List.mem_cons_self .., rfl⟩
    · obtain ⟨u, hu, rfl⟩ := mem_expressionAll h
      exact ⟨u, List.mem_cons_of_mem _ hu, rfl⟩

/-- Nodes that are read back make an expression that is. -/
theorem Arena.Holds.writable {a : Arena} {t : Tree} (h : a.Holds t)
    (hnodes : ∀ id n, a.Below t.id id → a.node? id = some n → n.Writable resolves) :
    t.expression.Writable resolves ∧ t.expression.Whole := by
  induction h with
  | @node id n children hn hids _ ih =>
    have hparts : ∀ e ∈ Tree.expressionAll children, e.Writable resolves ∧ e.Whole := by
      intro e he
      obtain ⟨t, ht, rfl⟩ := Tree.mem_expressionAll he
      refine ih t ht fun id' m hbelow => hnodes id' m (.head ?_ hbelow)
      show t.id ∈ a.children id
      rw [Arena.children, hn]
      simpa [hids] using ⟨t, ht, rfl⟩
    rw [Tree.expression]
    rcases hnodes id n .refl hn with ⟨⟨op, hop⟩, hne⟩ | ⟨hnone, hword, hop, hleaf⟩
    · rw [hop]
      refine ⟨.call ?_ fun e he => (hparts e he).1, Expression.whole_node op.isWholeWord_text fun e he => (hparts e he).2⟩
      intro hnil
      cases children with
      | nil => exact hne hids
      | cons t ts => cases hnil
    · have hleafless : children = [] := by simpa [hids] using hnone
      subst hleafless
      refine ⟨.leaf (Operator.ofWord?_eq_none_iff.1 hop) (leafOfWord?_eq_some_iff.1 hleaf), ?_⟩
      exact Expression.whole_node hword (List.forall_mem_nil _)

/-- Printing and reading are inverse, for sources and for arenas built by hand. -/
theorem print_read_inverse (resolves : String → Bool) :
    (∀ source a, parse resolves source = .ok a →
      a.text = String.ofList (source.toList.filter fun c => !isBlank c) ∧
        ∃ b, parse resolves a.text = .ok b ∧ b.unplaced = a.unplaced) ∧
    ∀ a : Arena, a.Built → ∀ root, a.root = some root →
      (∀ id n, a.Below root id → a.node? id = some n → n.Writable resolves) →
      ∃ b, parse resolves a.text = .ok b ∧ a.equivalent b = true := by
  constructor
  · intro source a ha
    obtain ⟨e, he, rfl⟩ := parseTokens_eq_ok_iff.1 ha
    have hwritten : e.arena.text.toList = visible source.toList := by
      rw [Arena.text, e.tree?_arena, Option.map_some, Option.getD_some, Tree.text_eq, e.expression_tree, ← he.kinds_eq,
        written_tokenize]
    have hkinds : (tokenize e.arena.text).map (·.kind) = e.kinds := by
      rw [map_kind_tokenize, hwritten, visible_visible, ← map_kind_tokenize, he.kinds_eq]
    obtain ⟨e', hparse, hsame⟩ := parse_of_kinds he.writable hkinds
    refine ⟨?_, e'.arena, hparse, ?_⟩
    · apply String.toList_injective
      rw [hwritten, String.toList_ofList]
      rfl
    · rw [← e'.arena_unplaced, hsame, e.arena_unplaced]
  · intro a hbuilt root hroot hnodes
    obtain ⟨t, htree, hholds, rfl⟩ := hbuilt.forest.exists_tree? hroot
    obtain ⟨hwritable, hwhole⟩ := hholds.writable hnodes
    have htext : a.text.toList = written t.expression.kinds := by
      rw [Arena.text, htree, Option.map_some, Option.getD_some, Tree.text_eq]
    have hkinds : (tokenize a.text).map (·.kind) = t.expression.kinds := by
      have hlex : TokenKind.lex (written t.expression.kinds ++ []) = t.expression.kinds ++ TokenKind.lex [] :=
        t.expression.lex_kinds hwhole trivial
      rw [map_kind_tokenize, htext, Expression.visible_kinds hwhole]
      simpa [TokenKind.lex] using hlex
    obtain ⟨e', hparse, hsame⟩ := parse_of_kinds hwritable hkinds
    refine ⟨e'.arena, hparse, ?_⟩
    rw [Arena.equivalent, htree, e'.tree?_arena]
    simp only [Tree.agrees_iff, e'.expression_tree]
    exact hsame.symm

theorem print_read_inverse_detached :
    let resolves := fun name => name == "v"
    let source := "> (\u2003v,\n5 0 )"
    let place : Span := ⟨0, 0⟩
    let byHand : Arena :=
      ⟨#[⟨.symbol "v", place, some 1, []⟩, ⟨.operator .not, place, none, [0]⟩, ⟨.operator .and, place, none, []⟩], some 1⟩
    (∃ a, parse resolves source = .ok a ∧ a.text = String.ofList (source.toList.filter fun c => !isBlank c) ∧
      ∃ b, parse resolves a.text = .ok b ∧ b.unplaced = a.unplaced) ∧
    byHand.Built ∧ ∃ b, parse resolves byHand.text = .ok b ∧ byHand.equivalent b = true := by
  intro resolves source place byHand
  obtain ⟨hsources, harenas⟩ := print_read_inverse resolves
  have hread : ∃ a, parse resolves source = .ok a := ⟨_, by cbv⟩
  have hbuilt : byHand.Built := by
    -- the operator that is attached first is taken away again
    have made : Arena.Built ⟨#[⟨.symbol "v", place, none, []⟩, ⟨.operator .not, place, none, []⟩,
        ⟨.operator .and, place, none, []⟩], none⟩ :=
      .push (.operator .and) place (.push (.operator .not) place (.push (.symbol "v") place .empty))
    have rooted : Arena.Built ⟨#[⟨.symbol "v", place, none, []⟩, ⟨.operator .not, place, none, []⟩,
        ⟨.operator .and, place, none, []⟩], some 1⟩ := made.setRoot (Nat.lt_add_one_of_lt Nat.one_lt_two) (by cbv)
    have linked : Arena.Built ⟨#[⟨.symbol "v", place, none, []⟩, ⟨.operator .not, place, none, [2]⟩,
        ⟨.operator .and, place, some 1, []⟩], some 1⟩ :=
      rooted.addChild (p := 1) (c := 2) (by decide) (by decide) (by cbv)
    have full : Arena.Built ⟨#[⟨.symbol "v", place, some 1, []⟩, ⟨.operator .not, place, none, [2, 0]⟩,
        ⟨.operator .and, place, some 1, []⟩], some 1⟩ :=
      linked.addChild (p := 1) (c := 0) (by decide) (by decide) (by cbv)
    exact full.detach (i := 2) (by decide)
  have hbelow : ∀ id, byHand.Below 1 id → id = 1 ∨ id = 0 := by
    intro id h
    induction h with
    | refl => exact .inl rfl
    | tail _ hchild ih =>
      rcases ih with rfl | rfl
      · exact .inr (List.mem_singleton.1 hchild)
      · cases hchild
  have hnodes : ∀ id n, byHand.Below 1 id → byHand.node? id = some n → n.Writable resolves := by
    intro id n hid hn
    rcases hbelow id hid with rfl | rfl
    · cases hn
      exact .inl ⟨⟨.not, rfl⟩, List.cons_ne_nil _ _⟩
    · cases hn
      exact .inr ⟨rfl, isWholeWord_of_all (by decide) (by decide), by cbv, by cbv⟩
  obtain ⟨a, ha⟩ := hread
  obtain ⟨htext, hagain⟩ := hsources source a ha
  exact ⟨⟨a, ha, htext, hagain⟩, hbuilt, harenas byHand hbuilt 1 rfl hnodes⟩

end RoadPolicy
