/-
Signals and what they show. To ask whether a signal shows a color, or whether it leads in a direction, is
to apply an operator to an expression and a marker. The questions about one expression differ in the
marker only: the tokens of the expression, its tree and the operand that it is lowered to are the same
in all of them, and no question takes a name. So they compile together or not at all, and in every
interpretation exactly one of them is true.
-/
import RoadPolicy.Proofs.Language.RoundTrip
import RoadPolicy.Proofs.Language.TokenLayout
import RoadPolicy.Proofs.Policy.TidyCompile
import RoadPolicy.Proofs.Policy.TypeSoundness

namespace RoadPolicy

/-! ## Cutting in front of a delimiter -/

theorem visibleFrom_append (offset : Nat) (cs ds : List Char) :
    visibleFrom offset (cs ++ ds) = visibleFrom offset cs ++ visibleFrom (offset + byteSize cs) ds := by
  induction cs generalizing offset with
  | nil => rfl
  | cons c cs ih =>
    rw [List.cons_append, visibleFrom, visibleFrom, ih, byteSize_cons, Nat.add_assoc]
    split <;> rfl

theorem Token.consChar_append (p : Char × Span) (tokens : List Token) {rest : List Token}
    (h : TokenKind.StartsApart (rest.map (·.kind))) : consChar p (tokens ++ rest) = consChar p tokens ++ rest := by
  unfold consChar
  rcases TokenKind.ofDelimiter? p.1 with _ | kind
  · rcases tokens with _ | ⟨⟨kind, span⟩, tokens⟩
    · rcases rest with _ | ⟨⟨kind, span⟩, rest⟩
      · rfl
      · cases kind with
        | word w => exact h.elim
        | openParen | closeParen | comma => rfl
    · cases kind <;> rfl
  · rfl

/-- Where no word starts, a source is cut: the tokens in front do not depend on what follows. -/
theorem tokenize_append (before : String) {after : String}
    (h : TokenKind.StartsApart (TokenKind.lex (visible after.toList))) :
    ∃ rest, tokenize (before ++ after) = tokenize before ++ rest ∧
      rest.map (·.kind) = TokenKind.lex (visible after.toList) := by
  have hkinds := map_kind_visibleFrom (0 + byteSize before.toList) after.toList
  refine ⟨_, ?_, hkinds⟩
  rw [← hkinds] at h
  rw [tokenize, tokenize, String.toList_append, visibleFrom_append, List.foldr_append]
  induction visibleFrom 0 before.toList with
  | nil => rfl
  | cons p ps ih => rw [List.foldr_cons, List.foldr_cons, ih, Token.consChar_append p _ h]

/-! ## Reading a question -/

section

variable {resolves : String → Bool} {registry : Registry} {op : Operator} {e : String} {m : Marker}

/-- The source that applies an operator to an expression and a marker. -/
def Operator.asking (op : Operator) (e : String) (m : Marker) : String := op.text ++ "(" ++ e ++ "," ++ m.text ++ ")"

theorem Marker.lex_behind : ∀ m ∈ Marker.all, TokenKind.lex (visible ("," ++ m.text ++ ")").toList) =
    [.comma, .word m.text, .closeParen] := by decide +kernel

/-- A marker is read as a leaf. -/
theorem Marker.derives (m : Marker) (place : Span) :
    Derives resolves [⟨.word m.text, place⟩] (.node (.marker m) place []) := by
  have hoperator : ∀ m ∈ Marker.all, ∀ op ∈ Operator.all, op.text ≠ m.text := by decide +kernel
  have hliteral : ∀ m ∈ Marker.all, (Literal.ofWord? m.text).isNone := by decide +kernel
  refine .leaf (fun op => hoperator m m.mem_all op op.mem_all) (.marker ?_ rfl)
  exact Literal.ofWord?_eq_none_iff.1 (Option.isNone_iff_eq_none.1 (hliteral m m.mem_all))

theorem Operator.kinds_opening (op : Operator) (e : String) :
    (tokenize (op.text ++ "(" ++ e)).map (·.kind) =
      .word op.text :: .openParen :: TokenKind.lex (visible e.toList) := by
  obtain ⟨hne, hchars⟩ := op.isWholeWord_text
  have hvisible : visible op.text.toList = op.text.toList :=
    List.filter_eq_self.2 fun c hc => by rw [(hchars c hc).2]; rfl
  have hsplit : visible (op.text ++ "(" ++ e).toList = op.text.toList ++ '(' :: visible e.toList := by
    rw [← hvisible]
    simp [visible, show isBlank '(' = false by decide]
  have hopen : TokenKind.lex ('(' :: visible e.toList) = .openParen :: TokenKind.lex (visible e.toList) :=
    TokenKind.lex_cons rfl _
  rw [map_kind_tokenize, hsplit, TokenKind.lex_word hne (fun c hc => (hchars c hc).1) (by rw [hopen]; trivial), hopen]

/-- The tokens of a question. Those of the expression do not depend on the marker. -/
theorem Operator.tokenize_asking (op : Operator) (e : String) :
    ∃ span opening inner, ∀ m, ∃ comma place closing, tokenize (op.asking e m) =
      ⟨.word op.text, span⟩ :: ⟨.openParen, opening⟩ ::
        (inner ++ [⟨.comma, comma⟩, ⟨.word m.text, place⟩] ++ [⟨.closeParen, closing⟩]) := by
  obtain ⟨⟨_, span⟩, _, hbefore, rfl, hkinds⟩ := List.map_eq_cons_iff.1 (op.kinds_opening e)
  obtain ⟨⟨_, opening⟩, inner, rfl, rfl, -⟩ := List.map_eq_cons_iff.1 hkinds
  refine ⟨span, opening, inner, fun m => ?_⟩
  have hbehind := Marker.lex_behind m m.mem_all
  have hapart : TokenKind.StartsApart (TokenKind.lex (visible ("," ++ m.text ++ ")").toList)) := by
    rw [hbehind]
    trivial
  obtain ⟨rest, htokens, hrest⟩ := tokenize_append (op.text ++ "(" ++ e) hapart
  rw [hbehind] at hrest
  simp only [List.map_eq_cons_iff, List.map_eq_nil_iff] at hrest
  obtain ⟨⟨_, comma⟩, _, rfl, rfl, ⟨_, place⟩, _, rfl, rfl, ⟨_, closing⟩, _, rfl, rfl, rfl⟩ := hrest
  refine ⟨comma, place, closing, ?_⟩
  have hsource : op.asking e m = op.text ++ "(" ++ e ++ ("," ++ m.text ++ ")") := by
    simp only [asking, String.append_assoc]
  rw [hsource, htokens, hbefore]
  simp

/-- In front of a last argument that is a word, the tokens derive the first one. -/
theorem DerivesArgs.of_pair {inner : List Token} {comma place : Span} {word : String} {x y : Expression}
    (h : DerivesArgs resolves (inner ++ [⟨.comma, comma⟩, ⟨.word word, place⟩]) [x, y]) : Derives resolves inner x := by
  generalize htokens : inner ++ _ = tokens at h
  cases h with
  | more hx hrest =>
    cases hrest with
    | one hy =>
      cases hy with
      | leaf =>
        obtain ⟨rfl, -⟩ := List.append_inj' htokens rfl
        exact hx
      | call =>
        -- a call would end with a parenthesis
        have hlast := congrArg List.reverse htokens
        simp at hlast
    | more _ hnone => exact absurd rfl hnone.ne_nil

/-- What reads as a question about one marker reads as one about any other, with the same expression. -/
theorem Derives.asking_all {whole : Expression} {k : Kind} (harity : op.arity = .exactly 2)
    (h : Derives resolves (tokenize (op.asking e m)) whole) (hkind : whole.HasKind registry k) :
    ∃ span x tokens kx l, Derives resolves tokens x ∧ x.HasKind registry kx ∧ op.Takes [kx, l] ∧
      ∀ m', ∃ place, Derives resolves (tokenize (op.asking e m'))
        (.node (.operator op) span [x, .node (.marker m') place []]) := by
  obtain ⟨span, opening, inner, htokens⟩ := op.tokenize_asking e
  obtain ⟨comma, place, closing, hm⟩ := htokens m
  rw [hm] at h
  generalize hts : _ :: _ = ts at h
  cases h with
  | leaf => cases hts
  | call hargs =>
    simp only [List.cons.injEq, Token.mk.injEq, TokenKind.word.injEq, true_and] at hts
    obtain ⟨⟨htext, rfl⟩, rfl, hinner⟩ := hts
    obtain rfl := Operator.text_injective htext
    obtain ⟨rfl, -⟩ := List.append_inj' hinner rfl
    cases hkind with
    | call hks htakes =>
      have hlen := htakes.accepts
      rw [harity] at hlen
      obtain ⟨kx, l, rfl⟩ := List.length_eq_two.1 (Operator.length_of_accepts hlen)
      cases hks with
      | cons hkx hrest =>
        cases hrest with
        | cons _ hnil =>
          cases hnil
          refine ⟨span, _, inner, kx, l, hargs.of_pair, hkx, htakes, fun m' => ?_⟩
          obtain ⟨comma', place', closing', hm'⟩ := htokens m'
          rw [hm']
          exact ⟨place', .call (.more hargs.of_pair (.one (m'.derives place')))⟩

end

/-! ## Operands without names -/

section

variable {Γ : Signature} {registry : Registry}

/-- Every value that can be looked up is well-sorted. -/
def Registry.WellSorted (Γ : Signature) (r : Registry) : Prop := ∀ name v, r.lookup name = some v → v.WellSorted Γ

theorem Registry.WellSorted.fits (h : registry.WellSorted Γ) : registry.Fits Γ := fun name v hv => (h name v hv).fits

def Operand.WellSorted (Γ : Signature) : Operand → Prop
  | value v => v.WellSorted Γ
  | marker _ => True

theorem Operand.WellSorted.sound {o : Operand} (h : o.WellSorted Γ) (hnumber : o.shape = .number) : o.Sound Γ := by
  obtain ⟨t, rfl, -⟩ := shape_eq_number_iff.1 hnumber
  exact sound_term.2 (Value.wellSorted_term.1 h)

/-- Numbers are made without taking a name. -/
theorem Operator.apply_plain {op : Operator} (h : op.yields ≠ .bool) (args : List Operand) :
    ∃ result, ∀ names, (op.apply args).run.run names = (result, names) := by
  by_cases hn : op.arity.accepts args.length = true
  case neg =>
    rw [apply, if_neg hn]
    exact ⟨_, fun _ => rfl⟩
  rw [apply, if_pos hn]
  cases op with
  | add | mul | div =>
    obtain ⟨a, b, rfl⟩ := List.length_eq_two.1 (length_of_accepts hn)
    exact ⟨_, fun _ => rfl⟩
  | sub =>
    have hlen : args.length = 1 ∨ args.length = 2 := by simpa [arity, Arity.accepts] using hn
    rcases hlen with hlen | hlen
    · obtain ⟨a, rfl⟩ := List.length_eq_one_iff.1 hlen
      exact ⟨_, fun _ => rfl⟩
    · obtain ⟨a, b, rfl⟩ := List.length_eq_two.1 hlen
      exact ⟨_, fun _ => rfl⟩
  | abs =>
    obtain ⟨a, rfl⟩ := List.length_eq_one_iff.1 (length_of_accepts hn)
    exact ⟨_, fun _ => rfl⟩
  | _ => exact absurd rfl h

/-- Only numbers make numbers. -/
theorem Operator.Takes.numbers {op : Operator} {ks : List Kind} (htakes : op.Takes ks) (h : op.yields ≠ .bool) :
    ∀ k ∈ ks, k = .number := by
  cases op with
  | add | mul | div | abs =>
    cases htakes
    simp
  | sub => rcases htakes with rfl | rfl <;> simp
  | _ => exact absurd rfl h

/-- The expression is lowered to a well-sorted operand, whatever names have been taken, and takes none. -/
structure Expression.Settles (Γ : Signature) (registry : Registry) (e : Expression) (o : Operand) : Prop where
  sorted : o.WellSorted Γ
  run : ∀ base names, ((e.tree base).lower registry).run.run names = (.ok o, names)

theorem Expression.Settles.shape_eq {e : Expression} {o : Operand} {k : Kind} (h : e.Settles Γ registry o)
    (he : e.LowersToKind Γ registry) (hk : e.HasKind registry k) : o.shape = k := by
  have hlower := he 0 ⟨0⟩
  rw [h.run] at hlower
  exact hlower.2.unique hk

theorem marker_settles (m : Marker) (span : Span) :
    Expression.Settles Γ registry (.node (.marker m) span []) (.marker m) := by
  refine ⟨trivial, fun base names => ?_⟩
  rw [run_lower_leaf, Head.operand]
  rfl

theorem leaf_settles (hreg : registry.WellSorted Γ) {resolves : String → Bool} {word : String} {head : Head}
    {span : Span} {k : Kind} (h : LeafWord resolves word head)
    (hk : Expression.HasKind registry (.node head span []) k) :
    ∃ o, Expression.Settles Γ registry (.node head span []) o := by
  cases h with
  | literal hwrites =>
    obtain ⟨t, ht, -⟩ := hwrites.term?
    refine ⟨.term t, Value.wellSorted_term.2 (Literal.term_means ht).1, fun base names => ?_⟩
    rw [run_lower_leaf, Head.operand, ht]
    rfl
  | @marker m => exact ⟨.marker m, marker_settles m span⟩
  | name =>
    cases hk with
    | @symbol _ _ v hv =>
      refine ⟨.value v, hreg _ v hv, fun base names => ?_⟩
      rw [run_lower_leaf, Head.operand, hv]
      rfl

theorem lowerAll_settled {es : List Expression} {os : List Operand}
    (h : List.Forall₂ (Expression.Settles Γ registry) es os) (base : Nat) (names : NameSupply) :
    (Tree.lowerAll registry (Expression.treeAll base es)).run.run names = (.ok os, names) := by
  induction h generalizing base with
  | nil => rfl
  | cons he _ ih =>
    rw [Expression.treeAll, Tree.lowerAll, run_bind, he.run]
    simp only [run_bind, ih]
    rfl

theorem run_lower_call {op : Operator} {span : Span} {args : List Expression} {os : List Operand}
    (h : List.Forall₂ (Expression.Settles Γ registry) args os) (base : Nat) (names : NameSupply) :
    (((Expression.node (.operator op) span args).tree base).lower registry).run.run names =
      match (op.apply os).run.run names with
      | (.ok t, names') => (.ok (.term t), names')
      | (.error cause, names') => (.error (.typeMismatch op cause span), names') := by
  rw [Expression.tree, Tree.lower, run_bind, lowerAll_settled h]
  exact Tree.run_operator op span os names

theorem exists_settled {es : List Expression} (h : ∀ e ∈ es, ∃ o, e.Settles Γ registry o ∧ o.Sound Γ) :
    ∃ os, List.Forall₂ (Expression.Settles Γ registry) es os ∧ ∀ o ∈ os, o.Sound Γ := by
  induction es with
  | nil => exact ⟨[], .nil, List.forall_mem_nil _⟩
  | cons e es ih =>
    rw [List.forall_mem_cons] at h
    obtain ⟨o, ho, hsound⟩ := h.1
    obtain ⟨os, hos, hall⟩ := ih h.2
    exact ⟨o :: os, .cons ho hos, List.forall_mem_cons.2 ⟨hsound, hall⟩⟩

theorem Expression.haveKind_of_all {es : List Expression} {ks : List Kind} {k : Kind}
    (h : List.Forall₂ (HasKind registry) es ks) (hks : ∀ l ∈ ks, l = k) : ∀ e ∈ es, e.HasKind registry k := by
  induction h with
  | nil => exact List.forall_mem_nil _
  | cons he _ ih =>
    rw [List.forall_mem_cons] at hks
    exact List.forall_mem_cons.2 ⟨hks.1 ▸ he, ih hks.2⟩

theorem call_settles {op : Operator} {span : Span} {args : List Expression} {ks : List Kind}
    (hyields : op.yields ≠ .bool) (hargs : ∀ e ∈ args, e.LowersToKind Γ registry)
    (hsettle : ∀ e ∈ args, e.HasKind registry .number → ∃ o, e.Settles Γ registry o)
    (hks : List.Forall₂ (Expression.HasKind registry) args ks) (htakes : op.Takes ks) :
    ∃ o, Expression.Settles Γ registry (.node (.operator op) span args) o := by
  have hnumbers := Expression.haveKind_of_all hks (htakes.numbers hyields)
  have hsettled : ∀ e ∈ args, ∃ o, e.Settles Γ registry o ∧ o.Sound Γ := by
    intro e he
    obtain ⟨o, ho⟩ := hsettle e he (hnumbers e he)
    exact ⟨o, ho, ho.sorted.sound (ho.shape_eq (hargs e he) (hnumbers e he))⟩
  obtain ⟨os, hos, hsound⟩ := exists_settled hsettled
  obtain ⟨result, hresult⟩ := op.apply_plain hyields os
  cases result with
  | error cause =>
    have hkind := @call_lowersToKind _ _ op span _ hargs 0 ⟨0⟩
    rw [run_lower_call hos, hresult] at hkind
    exact absurd (.call hks htakes) (hkind _)
  | ok t =>
    refine ⟨.term t, ?_, fun base names => by rw [run_lower_call hos, hresult]⟩
    exact Value.wellSorted_term.2 (Operator.apply_means hsound (hresult ⟨0⟩)).sorted

mutual

/-- What is not a formula is lowered without taking a name. -/
theorem Derives.settles (hreg : registry.WellSorted Γ) {resolves : String → Bool} : ∀ {tokens : List Token}
    {e : Expression}, Derives resolves tokens e → ∀ {k : Kind}, e.HasKind registry k → k ≠ .bool →
      ∃ o, e.Settles Γ registry o
  | _, _, .leaf _ hleaf, _, hk, _ => leaf_settles hreg hleaf hk
  | _, _, .call hargs, _, .call hks htakes, hyields =>
    call_settles hyields (hargs.lowersToKind hreg.fits) (hargs.settles hreg) hks htakes

theorem DerivesArgs.settles (hreg : registry.WellSorted Γ) {resolves : String → Bool} : ∀ {tokens : List Token}
    {es : List Expression}, DerivesArgs resolves tokens es → ∀ e ∈ es, e.HasKind registry .number →
      ∃ o, e.Settles Γ registry o
  | _, _, .one he => List.forall_mem_singleton.2 fun hk => he.settles hreg hk Kind.noConfusion
  | _, _, .more he hes =>
    List.forall_mem_cons.2 ⟨fun hk => he.settles hreg hk Kind.noConfusion, hes.settles hreg⟩

end

/-- A source that compiles has been lowered, so it is of the kind of truth values. -/
theorem hasKind_of_compile (hreg : registry.WellSorted Γ) {source : String} {names names' : NameSupply} {f : Term}
    (h : (compile registry source).run.run names = (.ok f, names')) :
    ∃ e, Derives registry.resolves (tokenize source) e ∧ e.HasKind registry .bool := by
  obtain ⟨e, -, hparse, -⟩ := compile_eq_ok h
  obtain ⟨e', he', harena⟩ := parseTokens_eq_ok_iff.1 hparse
  refine ⟨e', he', ?_⟩
  have hkind := lower_formula hreg.fits he' names
  rw [run_compile hparse, ← harena] at h
  rcases hlower : (lower registry e'.arena).run.run names with ⟨err | t, names₁⟩
  · rw [hlower] at h
    cases h
  · rw [hlower] at hkind
    exact hkind.2

end

/-! ## Signals -/

theorem Operand.WellSorted.isNumber {Γ : Signature} {o : Operand} {t : Term} (h : o.WellSorted Γ)
    (ht : o.number = .ok t) : t.IsNumber Γ := by
  obtain ⟨rfl, hsort⟩ := number_eq_ok ht
  exact ⟨Value.wellSorted_term.1 h, hsort⟩

theorem Operand.WellSorted.colorSignal {Γ : Signature} {o : Operand} {t : Term} (h : o.WellSorted Γ)
    (ht : o.colorSignal = .ok t) : t.IsNumber Γ := by
  unfold Operand.colorSignal at ht
  split at ht
  · split at ht
    · rename_i hc
      cases ht
      exact h.numbers t (by simp [Value.numbers, TrafficObject.numbers, hc])
    · cases ht
  · split at ht
    · rename_i hu
      cases ht
      exact h.isNumber hu
    · cases ht

theorem Operand.WellSorted.turnSignal {Γ : Signature} {o : Operand} {t : Term} (h : o.WellSorted Γ)
    (ht : o.turnSignal = .ok t) : t.IsNumber Γ := by
  unfold Operand.turnSignal at ht
  split at ht
  · cases ht
    exact h.numbers _ (by simp [Value.numbers, Lane.terms])
  · split at ht
    · rename_i hu
      cases ht
      exact h.isNumber hu
    · cases ht

/-- A signal shows exactly one color: the ranges meet at zero and at one without a gap. -/
theorem Color.existsUnique_shown (v : Rat) : ∃! c : Color, c.Shown v := by
  have hunique : ∀ {c d : Color}, c.Shown v → d.Shown v → d = c := by
    intro c d hc hd
    cases c <;> cases d <;> grind [Color.Shown]
  rcases lt_trichotomy v 1 with hlt | heq | hgt
  · rcases lt_or_ge 0 v with hpos | hle
    · exact ⟨.red, ⟨hpos, hlt⟩, fun _ => hunique ⟨hpos, hlt⟩⟩
    · exact ⟨.unknown, hle, fun _ => hunique hle⟩
  · exact ⟨.yellow, heq, fun _ => hunique heq⟩
  · exact ⟨.green, hgt, fun _ => hunique hgt⟩

theorem Direction.existsUnique_taken (v : Rat) : ∃! d : Direction, d.Taken v := by
  have hunique : ∀ {c d : Direction}, c.Taken v → d.Taken v → d = c := by
    intro c d hc hd
    cases c <;> cases d <;> grind [Direction.Taken]
  rcases lt_trichotomy v 0 with hlt | heq | hgt
  · exact ⟨.left, hlt, fun _ => hunique hlt⟩
  · exact ⟨.straight, heq, fun _ => hunique heq⟩
  · exact ⟨.right, hgt, fun _ => hunique hgt⟩

/-- An operator that asks what a signal shows: how it reads the signal, the formula that it makes of it for
each marker, and which numbers show the marker. Every number shows exactly one. -/
structure SignalTest (μ : Type) where
  op : Operator
  mark : μ → Marker
  signal : Operand → Except ApplyError Term
  formula : Term → μ → Term
  Shows : μ → Rat → Prop
  arity_eq : op.arity = .exactly 2
  ne_bool : ∀ {k l}, op.Takes [k, l] → k ≠ .bool
  run_apply : ∀ o m names, (op.apply [o, .marker (mark m)]).run.run names =
    (do return formula (← signal o) m, names)
  isNumber : ∀ {Γ o s}, o.WellSorted Γ → signal o = .ok s → s.IsNumber Γ
  relates : ∀ {Γ s} m, s.IsNumber Γ → Relates Γ (formula s m) fun I => Shows m (I.amount s)
  existsUnique : ∀ v, ∃! m, Shows m v

def SignalTest.color : SignalTest Color where
  op := .isColor
  mark := .color
  signal := Operand.colorSignal
  formula := Color.formula
  Shows := Color.Shown
  arity_eq := rfl
  ne_bool := by rintro _ _ (h | ⟨_, h⟩) <;> cases h <;> exact Kind.noConfusion
  run_apply _ _ _ := rfl
  isNumber := Operand.WellSorted.colorSignal
  relates := Operator.color_relates
  existsUnique := Color.existsUnique_shown

def SignalTest.direction : SignalTest Direction where
  op := .isDirection
  mark := .direction
  signal := Operand.turnSignal
  formula := Direction.formula
  Shows := Direction.Taken
  arity_eq := rfl
  ne_bool := by rintro _ _ (h | h) <;> cases h <;> exact Kind.noConfusion
  run_apply _ _ _ := rfl
  isNumber := Operand.WellSorted.turnSignal
  relates := Operator.direction_relates
  existsUnique := Direction.existsUnique_taken

namespace SignalTest

variable {Γ : Signature} {registry : Registry} {μ : Type} (T : SignalTest μ)

/-- A question about an operand compiles exactly if the operand has a signal. -/
theorem run_compile {source : String} {span place : Span} {x : Expression} {o : Operand} {m : μ}
    (hsource : Derives registry.resolves (tokenize source)
      (.node (.operator T.op) span [x, .node (.marker (T.mark m)) place []]))
    (hx : x.Settles Γ registry o) (names : NameSupply) :
    (compile registry source).run.run names =
      match T.signal o with
      | .ok s => (.ok (T.formula s m).simplify, names)
      | .error cause => (.error (.lower (.typeMismatch T.op cause span)), names) := by
  have hargs : List.Forall₂ (Expression.Settles Γ registry) [x, .node (.marker (T.mark m)) place []]
      [o, .marker (T.mark m)] := .cons hx (.cons (marker_settles _ place) .nil)
  rw [run_compile_tree (parseTokens_eq_ok_iff.2 ⟨_, hsource, rfl⟩), run_lower_call hargs, T.run_apply]
  rcases hs : T.signal o with cause | s
  · rfl
  · have hsort : (T.formula s m).sort = .bool := (T.relates m (T.isNumber hx.sorted hs)).1.2
    have hformula : ∀ span, formulaOf span (some (.term (T.formula s m))) = .ok (T.formula s m) := fun _ => if_pos hsort
    simp only [bind, Except.bind, pure, Except.pure, hformula]

/-- If one question about an expression compiles, all of them do, to formulas about the same number. -/
theorem compile_all (hreg : registry.WellSorted Γ) {e : String} {m : μ} {names names' : NameSupply} {f : Term}
    (h : (compile registry (T.op.asking e (T.mark m))).run.run names = (.ok f, names')) :
    ∃ s : Term, s.IsNumber Γ ∧ ∀ m names, (compile registry (T.op.asking e (T.mark m))).run.run names =
      (.ok (T.formula s m).simplify, names) := by
  obtain ⟨whole, hwhole, hkind⟩ := hasKind_of_compile hreg h
  obtain ⟨span, x, tokens, k, l, hx, hk, htakes, hall⟩ := hwhole.asking_all T.arity_eq hkind
  obtain ⟨o, ho⟩ := hx.settles hreg hk (T.ne_bool htakes)
  rcases hs : T.signal o with cause | s
  · obtain ⟨place, hm⟩ := hall (T.mark m)
    rw [T.run_compile hm ho, hs] at h
    cases h
  · refine ⟨s, T.isNumber ho.sorted hs, fun m names => ?_⟩
    obtain ⟨place, hm⟩ := hall (T.mark m)
    rw [T.run_compile hm ho, hs]

theorem existsUnique_satisfies {s : Term} (hs : s.IsNumber Γ) (I : Interpretation) :
    ∃! m, I.Satisfies (T.formula s m).simplify := by
  have hshows : ∀ m, I.Satisfies (T.formula s m).simplify ↔ T.Shows m (I.amount s) := by
    intro m
    obtain ⟨hformula, hmeans⟩ := T.relates m hs
    refine Iff.trans ?_ (hmeans I)
    rw [Interpretation.Satisfies, (Term.simplify_replaces _ hformula.1).meaning I]
    rfl
  simpa only [hshows] using T.existsUnique (I.amount s)

end SignalTest

/-- In a well-sorted registry, if the question whether an expression shows some color compiles, then the
questions about all colors compile, from whatever names have been taken, and in every interpretation exactly
one of their formulas is true. It is the same with directions. -/
theorem signals_shown_exactly_one (Γ : Signature) (registry : Registry) (hreg : registry.WellSorted Γ) (e : String) :
    ((∃ c names f names',
        (compile registry (Operator.isColor.asking e (.color c))).run.run names = (.ok f, names')) →
      ∃ formula : Color → Term,
        (∀ c names, (compile registry (Operator.isColor.asking e (.color c))).run.run names =
          (.ok (formula c), names)) ∧
        ∀ I : Interpretation, ∃! c, I.Satisfies (formula c)) ∧
    ((∃ d names f names',
        (compile registry (Operator.isDirection.asking e (.direction d))).run.run names = (.ok f, names')) →
      ∃ formula : Direction → Term,
        (∀ d names, (compile registry (Operator.isDirection.asking e (.direction d))).run.run names =
          (.ok (formula d), names)) ∧
        ∀ I : Interpretation, ∃! d, I.Satisfies (formula d)) := by
  constructor
  · rintro ⟨c, names, f, names', h⟩
    obtain ⟨s, hs, hall⟩ := SignalTest.color.compile_all hreg h
    exact ⟨_, hall, SignalTest.color.existsUnique_satisfies hs⟩
  · rintro ⟨d, names, f, names', h⟩
    obtain ⟨s, hs, hall⟩ := SignalTest.direction.compile_all hreg h
    exact ⟨_, hall, SignalTest.direction.existsUnique_satisfies hs⟩

/-- A traffic light, a number of a marked constant and a lane. -/
theorem signals_shown_exactly_one_light :
    let light := TrafficObject.unconstrained .trafficLight "1"
    let seen := (Registry.empty.define .model "light" (.object light)).define .model "lane" (.lane (.named "ahead"))
    let registry := seen.define .user "v" (.term (.realConst "v!0"))
    registry.WellSorted .free ∧
    (∀ e ∈ ["light", "/(abs(-(v)), 2)"], ∃ formula : Color → Term,
      (∀ c names, (compile registry (Operator.isColor.asking e (.color c))).run.run names =
        (.ok (formula c), names)) ∧
      ∀ I : Interpretation, ∃! c, I.Satisfies (formula c)) ∧
    ∃ formula : Direction → Term,
      (∀ d names, (compile registry (Operator.isDirection.asking "lane" (.direction d))).run.run names =
        (.ok (formula d), names)) ∧
      ∀ I : Interpretation, ∃! d, I.Satisfies (formula d) := by
  intro light seen registry
  have hlight : (Value.object light).WellSorted .free := by
    refine ⟨fun t ht => ?_, ?_, List.forall_mem_nil _⟩
    · cases ht
    · simp [light, Value.numbers, TrafficObject.numbers, TrafficObject.unconstrained, Point.terms, Point.named,
        ObjectKind.objectName, ObjectKind.label, ObjectKind.isMobile, ObjectKind.hasLane, Term.realConst, Term.IsNumber,
        Term.WellSorted, Signature.free, Term.sort]
  have hlane : (Value.lane (.named "ahead")).WellSorted .free := by
    refine ⟨fun t ht => ?_, ?_, List.forall_mem_nil _⟩
    · cases ht
    · simp [Value.numbers, Lane.terms, Lane.named, Term.realConst, Term.IsNumber, Term.WellSorted, Signature.free,
        Term.sort]
  have hreg : registry.WellSorted .free := by
    intro name v hv
    rcases Registry.lookup_define hv with rfl | hv
    · exact Value.wellSorted_term.2 trivial
    rcases Registry.lookup_define hv with rfl | hv
    · exact hlane
    rcases Registry.lookup_define hv with rfl | hv
    · exact hlight
    · cases hv
  refine ⟨hreg, fun e he => ?_, ?_⟩
  · refine (signals_shown_exactly_one .free registry hreg e).1 ?_
    rcases List.mem_pair.1 he with rfl | rfl
    · exact ⟨.red, ⟨0⟩, _, ⟨0⟩, by cbv⟩
    · exact ⟨.red, ⟨0⟩, _, ⟨0⟩, by cbv⟩
  · refine (signals_shown_exactly_one .free registry hreg "lane").2 ?_
    exact ⟨.left, ⟨0⟩, _, ⟨0⟩, by cbv⟩

end RoadPolicy
