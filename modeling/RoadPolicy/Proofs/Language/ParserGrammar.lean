/-
The parser accepts exactly the grammar. What the machine on chains of open calls has read is at
every moment a beginning of an expression, so an accepted token list is the token list of the
expression that is returned; and every derivation is a run of the machine, by induction on the
derivation. As the machine is deterministic, a token list has at most one expression.
-/
import RoadPolicy.Proofs.Language.Grammar
import RoadPolicy.Proofs.Language.ParserMachine

namespace RoadPolicy

variable {resolves : String → Bool}

/-- A fault of the tokens themselves, and not of what reads them. -/
def SyntaxFault.isSyntactic : SyntaxFault → Bool
  | lexical _ | refused _ => false
  | _ => true

/-! ## What has been read is a beginning of an expression -/

section

variable (resolves)

/-- Tokens after which the next operand of a chain of open calls is due. -/
inductive SpineReads : List Token → Spine → Prop
  | start : SpineReads [] []
  | first {tokens : List Token} {outer : Spine} {op : Operator} {span opening : Span} : SpineReads tokens outer →
      SpineReads (tokens ++ [⟨.word op.text, span⟩, ⟨.openParen, opening⟩]) (⟨op, span, []⟩ :: outer)
  | next {tokens given : List Token} {outer : Spine} {call : OpenCall} {opening comma : Span} :
      SpineReads tokens outer → DerivesArgs resolves given call.args →
      SpineReads (tokens ++ ⟨.word call.op.text, call.span⟩ :: ⟨.openParen, opening⟩ :: (given ++ [⟨.comma, comma⟩]))
        (call :: outer)

/-- The tokens that lead to a point of a reading. -/
def Progress.Reads (tokens : List Token) : Progress → Prop
  | .operand spine => SpineReads resolves tokens spine
  | .called op span outer => ∃ before, SpineReads resolves before outer ∧ tokens = before ++ [⟨.word op.text, span⟩]
  | .after call outer => ∃ before opening given, SpineReads resolves before outer ∧
      DerivesArgs resolves given call.args ∧
      tokens = before ++ ⟨.word call.op.text, call.span⟩ :: ⟨.openParen, opening⟩ :: given
  | .complete e => Derives resolves tokens e

end

theorem SpineReads.add {before tokens : List Token} {spine : Spine} {e : Expression}
    (hs : SpineReads resolves before spine) (he : Derives resolves tokens e) :
    (Progress.add e spine).Reads resolves (before ++ tokens) := by
  cases hs with
  | start => exact he
  | @first before outer op span opening hs => exact ⟨before, opening, tokens, hs, .one he, by simp [OpenCall.add]⟩
  | @next before given outer call opening comma hs hargs =>
    exact ⟨before, opening, given ++ ⟨.comma, comma⟩ :: tokens, hs, hargs.snoc he, by simp [OpenCall.add]⟩

namespace Progress

/-- A token takes a beginning of an expression to the next one. -/
theorem Reads.step {p q : Progress} {tokens : List Token} {tok : Token} (hp : p.Reads resolves tokens)
    (h : p.step resolves tok = .ok q) : q.Reads resolves (tokens ++ [tok]) := by
  obtain ⟨kind, span⟩ := tok
  cases p with
  | operand spine =>
    cases kind with
    | word word =>
      simp only [Progress.step] at h
      split at h
      · rename_i op hop
        cases h
        exact ⟨tokens, hp, by rw [Operator.ofWord?_eq_some_iff.1 hop]⟩
      · rename_i hop
        split at h
        · rename_i leaf hleaf
          cases h
          exact SpineReads.add hp (.leaf (Operator.ofWord?_eq_none_iff.1 hop) (leafOfWord?_eq_some_iff.1 hleaf))
        · cases h
    | openParen | closeParen | comma => cases h
  | called op start outer =>
    obtain ⟨before, hs, rfl⟩ := hp
    cases kind with
    | openParen =>
      cases h
      rw [List.append_assoc]
      exact .first hs
    | closeParen | comma | word => cases h
  | after call outer =>
    obtain ⟨before, opening, given, hs, hargs, rfl⟩ := hp
    cases kind with
    | comma =>
      cases h
      rw [List.append_assoc]
      exact .next hs hargs
    | closeParen =>
      -- the call is an argument of the one around it, or the whole expression
      cases h
      rw [List.append_assoc]
      exact hs.add (.call hargs)
    | openParen | word => cases h
  | complete e => cases kind <;> cases h

theorem Reads.foldlM {tokens rest : List Token} {p q : Progress} (hp : p.Reads resolves tokens)
    (h : rest.foldlM (Progress.step resolves) p = .ok q) : q.Reads resolves (tokens ++ rest) := by
  induction rest generalizing p tokens with
  | nil => cases h; rwa [List.append_nil]
  | cons tok rest ih =>
    rw [List.foldlM_cons] at h
    rcases hstep : p.step resolves tok with _ | p'
    · rw [hstep] at h; cases h
    · rw [hstep] at h
      have := ih (hp.step hstep) h
      rwa [List.append_assoc] at this

/-! ## Derivations are runs -/

theorem foldlM_append_ok {tokens rest : List Token} {p q : Progress}
    (h : tokens.foldlM (Progress.step resolves) p = .ok q) :
    (tokens ++ rest).foldlM (Progress.step resolves) p = rest.foldlM (Progress.step resolves) q := by
  rw [List.foldlM_append, h]
  rfl

mutual

/-- The machine reads an expression wherever an operand is due. -/
theorem foldlM_of_derives : ∀ {tokens : List Token} {e : Expression}, Derives resolves tokens e → ∀ spine : Spine,
    tokens.foldlM (Progress.step resolves) (operand spine) = .ok (add e spine)
  | _, _, @Derives.leaf _ word span head hop hleaf, spine => by
    have hstep : (operand spine).step resolves ⟨.word word, span⟩ = .ok (add (.node head span []) spine) := by
      simp only [Progress.step, Operator.ofWord?_eq_none_iff.2 hop, leafOfWord?_eq_some_iff.2 hleaf]
    rw [List.foldlM_cons, hstep]
    rfl
  | _, _, @Derives.call _ op span _ _ tokens _ hargs, spine => by
    have hstep : (operand spine).step resolves ⟨.word op.text, span⟩ = .ok (called op span spine) := by
      simp only [Progress.step, Operator.ofWord?_eq_some_iff.2 rfl]
    rw [List.foldlM_cons, hstep]
    show (tokens ++ _).foldlM (Progress.step resolves) (operand (⟨op, span, []⟩ :: spine)) = _
    rw [foldlM_append_ok (foldlM_of_derivesArgs hargs ⟨op, span, []⟩ spine)]
    rfl

/-- The machine reads arguments wherever one is due. -/
theorem foldlM_of_derivesArgs : ∀ {tokens : List Token} {es : List Expression}, DerivesArgs resolves tokens es →
    ∀ (c : OpenCall) (outer : Spine), tokens.foldlM (Progress.step resolves) (operand (c :: outer)) =
      .ok (after { c with args := c.args ++ es } outer)
  | _, _, .one he, c, outer => foldlM_of_derives he (c :: outer)
  | _, _, @DerivesArgs.more _ _ _ _ e _ he hes, c, outer => by
    rw [foldlM_append_ok (foldlM_of_derives he (c :: outer))]
    show List.foldlM (Progress.step resolves) (operand (c.add e :: outer)) _ = _
    rw [foldlM_of_derivesArgs hes (c.add e) outer]
    simp [OpenCall.add]

end

/-- The machine reads exactly the expressions of the grammar. -/
theorem read_eq_ok_iff {tokens : List Token} {e : Expression} :
    read resolves tokens = .ok e ↔ Derives resolves tokens e := by
  rw [read]
  constructor
  · intro h
    rcases hrun : tokens.foldlM (Progress.step resolves) (operand []) with _ | p
    · rw [hrun] at h; cases h
    · rw [hrun] at h
      have hstart : (operand []).Reads resolves [] := SpineReads.start
      have hp : p.Reads resolves tokens := hstart.foldlM hrun
      cases p with
      | complete e' => cases h; exact hp
      | operand spine => cases spine <;> cases h
      | called op span outer => cases h
      | after c outer => cases h
  · intro h
    rw [foldlM_of_derives h []]
    rfl

/-! ## Errors -/

/-- What a token can be refused for: it is an unknown word where an operand is due, or it is of a kind
that cannot stand where it stands. -/
theorem step_eq_error {p : Progress} {tok : Token} {err : ParseError} (h : p.step resolves tok = .error err) :
    (∃ spine word, p = operand spine ∧ tok.kind = .word word ∧ Unknown resolves word ∧
      err = unknownWord word tok.span) ∨
    (∀ spine word, p = operand spine → tok.kind ≠ .word word) ∧
      ∃ fault, fault.isSyntactic = true ∧ err = .malformed fault tok.span := by
  obtain ⟨kind, place⟩ := tok
  cases p with
  | operand spine =>
    cases kind with
    | word word =>
      simp only [Progress.step] at h
      split at h
      · cases h
      rename_i hop
      split at h
      · cases h
      rename_i hleaf
      cases h
      exact .inl ⟨spine, word, rfl, rfl, unknown_iff.2 ⟨hop, hleaf⟩, rfl⟩
    | openParen | closeParen | comma =>
      cases h
      exact .inr ⟨fun _ _ _ => TokenKind.noConfusion, _, rfl, rfl⟩
  | called op start outer =>
    refine .inr ⟨fun _ _ => Progress.noConfusion, ?_⟩
    cases kind <;> cases h <;> exact ⟨_, rfl, rfl⟩
  | after call outer =>
    refine .inr ⟨fun _ _ => Progress.noConfusion, ?_⟩
    cases kind <;> cases h <;> exact ⟨_, rfl, rfl⟩
  | complete e =>
    refine .inr ⟨fun _ _ => Progress.noConfusion, ?_⟩
    cases kind <;> cases h <;> exact ⟨_, rfl, rfl⟩

/-- A reading that fails on a token has read all tokens before it. -/
theorem foldlM_eq_error {err : ParseError} : ∀ {tokens : List Token} {p : Progress},
    tokens.foldlM (Progress.step resolves) p = .error err → ∃ before tok after q, tokens = before ++ tok :: after ∧
      before.foldlM (Progress.step resolves) p = .ok q ∧ q.step resolves tok = .error err
  | [], _, h => nomatch h
  | tok :: tokens, p, h => by
    rw [List.foldlM_cons] at h
    rcases hstep : p.step resolves tok with e | q
    · rw [hstep] at h
      cases h
      exact ⟨[], tok, tokens, p, rfl, rfl, hstep⟩
    · rw [hstep] at h
      obtain ⟨before, tok', after, q', rfl, hbefore, hfails⟩ := foldlM_eq_error h
      refine ⟨tok :: before, tok', after, q', rfl, ?_, hfails⟩
      rw [List.foldlM_cons, hstep]
      exact hbefore

/-- The machine fails on a token, or at the end of the input. -/
theorem read_eq_error {tokens : List Token} {err : ParseError} (h : read resolves tokens = .error err) :
    (∃ before tok after p, tokens = before ++ tok :: after ∧
      before.foldlM (Progress.step resolves) (operand []) = .ok p ∧ p.step resolves tok = .error err) ∨
    ∃ p, tokens.foldlM (Progress.step resolves) (operand []) = .ok p ∧
      p.finish ((tokens.getLast?.map (·.span.stop)).getD 0) = .error err := by
  rw [read] at h
  rcases hrun : tokens.foldlM (Progress.step resolves) (operand []) with e | p
  · rw [hrun] at h
    cases h
    exact .inl (foldlM_eq_error hrun)
  · rw [hrun] at h
    exact .inr ⟨p, rfl, h⟩

theorem finish_malformed {p : Progress} {stop : Nat} {err : ParseError} (h : p.finish stop = .error err) :
    ∃ fault span, fault.isSyntactic = true ∧ err = .malformed fault span := by
  cases p with
  | operand spine => cases spine <;> cases h <;> exact ⟨_, _, rfl, rfl⟩
  | called op start outer => cases h; exact ⟨_, _, rfl, rfl⟩
  | after c outer => cases h; exact ⟨_, _, rfl, rfl⟩
  | complete e => cases h

/-- A token list is refused for its tokens only. -/
theorem isSyntactic_of_read {tokens : List Token} {fault : SyntaxFault} {span : Span}
    (h : read resolves tokens = .error (.malformed fault span)) : fault.isSyntactic = true := by
  rcases read_eq_error h with ⟨-, tok, -, p, -, -, hstep⟩ | ⟨p, -, hfinish⟩
  · rcases step_eq_error hstep with ⟨-, word, -, -, -, herr⟩ | ⟨-, fault', hfault, herr⟩
    · unfold unknownWord at herr
      split at herr
      · cases herr
      · cases herr; rfl
    · cases herr
      exact hfault
  · obtain ⟨fault', span', hfault, herr⟩ := finish_malformed hfinish
    cases herr
    exact hfault

end Progress

/-! ## Operators have arguments -/

theorem Expression.positions_ne_nil {i : Nat} {es : List Expression} (h : es ≠ []) : positions i es ≠ [] := by
  cases es with
  | nil => exact absurd rfl h
  | cons e es => simp [positions]

mutual

theorem Derives.children_ne_nil : ∀ {tokens : List Token} {e : Expression}, Derives resolves tokens e →
    ∀ {parent : Option NodeId} {i : Nat} {n : Node} {op : Operator}, n ∈ e.nodes parent i →
      n.head = .operator op → n.children ≠ []
  | _, _, .leaf _ hleaf, _, _, n, op, hn, hop => by
    rcases List.mem_singleton.1 hn
    cases hop
    cases hleaf
  | _, _, .call hargs, _, _, n, op, hn, hop => by
    rw [Expression.nodes, List.mem_cons] at hn
    rcases hn with rfl | hn
    · exact Expression.positions_ne_nil hargs.ne_nil
    · exact hargs.children_ne_nil hn hop

theorem DerivesArgs.children_ne_nil : ∀ {tokens : List Token} {es : List Expression}, DerivesArgs resolves tokens es →
    ∀ {parent : Option NodeId} {i : Nat} {n : Node} {op : Operator}, n ∈ Expression.nodesAll parent i es →
      n.head = .operator op → n.children ≠ []
  | _, _, .one he, _, _, n, op, hn, hop => by
    rw [Expression.nodesAll, Expression.nodesAll, List.append_nil] at hn
    exact he.children_ne_nil hn hop
  | _, _, .more he hes, _, _, n, op, hn, hop => by
    rw [Expression.nodesAll, List.mem_append] at hn
    rcases hn with hn | hn
    · exact he.children_ne_nil hn hop
    · exact hes.children_ne_nil hn hop

end

/-! ## The parser -/

/-- The parser returns the numbering of the expression that the tokens derive. -/
theorem parseTokens_eq_ok_iff {tokens : List Token} {a : Arena} :
    parseTokens resolves tokens = .ok a ↔ ∃ e, Derives resolves tokens e ∧ e.arena = a := by
  rw [parseTokens_eq]
  rcases h : Progress.read resolves tokens with err | e
  · constructor
    · intro h'; cases h'
    rintro ⟨e, he, -⟩
    rw [Progress.read_eq_ok_iff.2 he] at h
    cases h
  · have he := Progress.read_eq_ok_iff.1 h
    constructor
    · rintro ⟨⟩
      exact ⟨e, he, rfl⟩
    · rintro ⟨e', he', rfl⟩
      rw [Progress.read_eq_ok_iff.2 he'] at h
      cases h
      rfl

theorem Derives.unique {tokens : List Token} {e e' : Expression} (h : Derives resolves tokens e)
    (h' : Derives resolves tokens e') : e = e' := by
  have hr := Progress.read_eq_ok_iff.2 h
  rw [Progress.read_eq_ok_iff.2 h'] at hr
  cases hr
  rfl

theorem parseTokens_eq_error_iff {tokens : List Token} {err : ParseError} :
    parseTokens resolves tokens = .error err ↔ Progress.read resolves tokens = .error err := by
  rw [parseTokens_eq]
  cases Progress.read resolves tokens <;> simp [Except.map]

theorem parseTokens_not_refused {tokens : List Token} {why : Refusal} {span : Span} :
    parseTokens resolves tokens ≠ .error (.malformed (.refused why) span) := fun h =>
  Bool.false_ne_true (Progress.isSyntactic_of_read (parseTokens_eq_error_iff.1 h))

theorem Derives.arena_children_ne_nil {tokens : List Token} {e : Expression} (h : Derives resolves tokens e)
    {id : NodeId} {n : Node} {op : Operator} (hn : e.arena.node? id = some n) (hop : n.head = .operator op) :
    n.children ≠ [] := by
  have hmem : n ∈ e.nodes none 0 := List.mem_of_getElem? (by simpa [Expression.arena, Arena.node?] using hn)
  exact h.children_ne_nil hmem hop

/-- The parser accepts a source exactly if its tokens derive an expression. There is at most one such
expression, and it is the tree of the arena that is returned; all nodes of the arena hang below the
root, and each operator has arguments. Whatever the source, the arena refuses no link. -/
theorem parse_ok_iff_derives (resolves : String → Bool) (source : String) :
    ((∃ a, parse resolves source = .ok a) ↔ ∃ e, Derives resolves (tokenize source) e) ∧
    (∀ e e', Derives resolves (tokenize source) e → Derives resolves (tokenize source) e' → e = e') ∧
    (∀ a, parse resolves source = .ok a → ∃ root t, a.root = some root ∧ a.tree? = some t ∧
      Derives resolves (tokenize source) t.expression ∧ (∀ id, id < a.size → a.Below root id) ∧
      ∀ id n op, a.node? id = some n → n.head = .operator op → n.children ≠ []) ∧
    ∀ why span, parse resolves source ≠ .error (.malformed (.refused why) span) := by
  refine ⟨⟨?_, ?_⟩, fun e e' => Derives.unique, ?_, fun why span => parseTokens_not_refused⟩
  · rintro ⟨a, ha⟩
    obtain ⟨e, he, -⟩ := parseTokens_eq_ok_iff.1 ha
    exact ⟨e, he⟩
  · rintro ⟨e, he⟩
    exact ⟨e.arena, parseTokens_eq_ok_iff.2 ⟨e, he, rfl⟩⟩
  · intro a ha
    obtain ⟨e, he, rfl⟩ := parseTokens_eq_ok_iff.1 ha
    refine ⟨0, e.tree 0, rfl, e.tree?_arena, by rwa [e.expression_tree], fun id hid => e.below_root hid, ?_⟩
    intro id n op hn hop
    exact he.arena_children_ne_nil hn hop

end RoadPolicy
