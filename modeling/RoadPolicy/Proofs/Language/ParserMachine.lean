/-
The parser without its arena. What has been read is a chain of open operator calls, each with the
arguments that are complete; reading a token changes this chain in a few simple ways. The arena that
the parser builds is at every moment the numbering of the chain, so that the parser does step by
step what the machine on chains does, with the same errors, and the arena never refuses a link.
-/
import RoadPolicy.Language.Parser
import RoadPolicy.Proofs.Language.Expression

namespace RoadPolicy

/-- An operator call whose argument list is open, with the arguments that are complete. -/
structure OpenCall where
  op : Operator
  span : Span
  args : List Expression

namespace OpenCall

/-- The call as an expression. -/
def close (c : OpenCall) : Expression := .node (.operator c.op) c.span c.args

/-- The call with one more argument. -/
def add (c : OpenCall) (e : Expression) : OpenCall := { c with args := c.args ++ [e] }

end OpenCall

/-- Open calls one inside the other, the innermost first. -/
abbrev Spine := List OpenCall

namespace Spine

/-- The number of nodes read. -/
def size : Spine → Nat
  | [] => 0
  | c :: outer => size outer + 1 + Expression.sizeAll c.args

/-- The nodes of the calls. -/
def ids : Spine → List NodeId
  | [] => []
  | _ :: outer => size outer :: ids outer

/-- The node of the innermost call. -/
def innermost : Spine → Option NodeId
  | [] => none
  | _ :: outer => some (size outer)

/-- The nodes read. The innermost call has its complete arguments as children, and `pending` besides. -/
def nodes : Spine → List NodeId → List Node
  | [], _ => []
  | c :: outer, pending =>
    nodes outer [size outer] ++
      ⟨.operator c.op, c.span, innermost outer, Expression.positions (size outer + 1) c.args ++ pending⟩ ::
        Expression.nodesAll (some (size outer)) (size outer + 1) c.args

/-- The arena of what has been read. -/
def arena : Spine → Arena
  | [] => .empty
  | c :: outer => ⟨(nodes (c :: outer) []).toArray, some 0⟩

theorem length_ids : ∀ spine : Spine, (ids spine).length = spine.length
  | [] => rfl
  | _ :: outer => by rw [ids, List.length_cons, List.length_cons, length_ids outer]

@[simp] theorem length_nodes : ∀ (spine : Spine) (pending : List NodeId), (nodes spine pending).length = size spine
  | [], _ => rfl
  | c :: outer, pending => by
    rw [nodes, List.length_append, List.length_cons, length_nodes outer, Expression.length_nodesAll, size]
    omega

/-- Parents stand before their children. -/
theorem parent_lt : ∀ {spine : Spine} {pending : List NodeId} {n : Node} {p : Nat},
    n ∈ nodes spine pending → n.parent = some p → p < size spine
  | [], _, _, _, hn, _ => nomatch hn
  | c :: outer, pending, n, p, hn, hp => by
    rw [size]
    rw [nodes, List.mem_append, List.mem_cons] at hn
    rcases hn with hn | rfl | hn
    · have := parent_lt hn hp; omega
    · cases outer with
      | nil => cases hp
      | cons d outer =>
        cases hp
        simp only [size]; omega
    · have hargs := Expression.parent_of_mem_nodesAll (fun e _ => e.parent_of_mem_nodes) hn hp
      omega

/-- Numbering a further argument after everything else. -/
theorem nodes_add (c : OpenCall) (outer : Spine) (e : Expression) :
    nodes (c :: outer) [size (c :: outer)] ++ e.nodes (some (size outer)) (size (c :: outer)) =
      nodes (c.add e :: outer) [] := by
  simp only [nodes, OpenCall.add, Expression.positions_append, Expression.nodesAll_append, Expression.positions,
    Expression.nodesAll, size, List.append_assoc, List.cons_append, List.append_nil]

end Spine

/-! ## Links that the parser makes -/

theorem modify_append_cons {α : Type} (f : α → α) (x : α) (ys : List α) :
    ∀ xs : List α, (xs ++ x :: ys).modify xs.length f = xs ++ f x :: ys
  | [] => rfl
  | y :: xs => by simp [modify_append_cons f x ys xs]

namespace Arena

/-- Ancestors are parents of some node. -/
theorem mem_ancestorsWithin {a : Arena} {x : NodeId} : ∀ {limit : Nat} {id : NodeId},
    x ∈ a.ancestorsWithin limit id → ∃ i, a.parent? i = some x
  | 0, _, h => nomatch h
  | limit + 1, id, h => by
    rw [ancestorsWithin] at h
    split at h
    · cases h
    · rename_i p hp
      rcases List.mem_cons.1 h with rfl | h
      · exact ⟨id, hp⟩
      · exact mem_ancestorsWithin h

/-- A node just made can be put below any other one, if all parents are older nodes. -/
theorem addChild_push {a : Arena} (head : Head) (span : Span) {parent : Nat} (hp : parent < a.size)
    (hroot : a.root ≠ some a.size) (hold : ∀ i p : Nat, a.parent? i = some p → p < a.size) :
    (a.push head span).1.addChild parent a.size = .ok ((a.push head span).1.link parent a.size) := by
  have hnode : ∀ i : Nat, (a.push head span).1.node? i = if i = a.size then some ⟨head, span, none, []⟩ else a.node? i := by
    intro i
    show (a.nodes.push _)[i]? = _
    rw [Array.getElem?_push]
    rfl
  have hparent : ∀ i p : Nat, (a.push head span).1.parent? i = some p → a.parent? i = some p := by
    intro i p h
    rw [parent?, hnode] at h
    split at h
    · cases h
    · exact h
  have hnew : (a.push head span).1.parent? a.size = none := by
    rw [parent?, hnode, if_pos rfl]; rfl
  -- no node stands above the new one, so no cycle is closed
  have hno : ¬ (parent = a.size ∨ a.size ∈ (a.push head span).1.ancestors parent) := by
    rintro (h | h)
    · exact absurd hp (by rw [h]; exact Nat.lt_irrefl _)
    · obtain ⟨i, hi⟩ := mem_ancestorsWithin h
      exact absurd (hold i a.size (hparent i a.size hi)) (Nat.lt_irrefl _)
  have hroot' : (a.push head span).1.root ≠ some a.size := hroot
  rw [addChild, hnew, if_neg (by simp), if_neg hroot', if_neg hno]

end Arena

namespace Spine

theorem arena_parent_lt {spine : Spine} {i p : Nat} (h : (arena spine).parent? i = some p) : p < (arena spine).size := by
  cases spine with
  | nil => cases h
  | cons c outer =>
    rw [Arena.parent?, Option.bind_eq_some_iff] at h
    obtain ⟨n, hn, hp⟩ := h
    have hmem : n ∈ nodes (c :: outer) [] := List.mem_of_getElem? (by simpa [arena, Arena.node?] using hn)
    simpa [arena, Arena.size] using parent_lt hmem hp

theorem size_lt (c : OpenCall) (outer : Spine) : size outer < size (c :: outer) := by
  rw [size]; omega

@[simp] theorem size_arena (spine : Spine) : (arena spine).size = size spine := by
  cases spine with
  | nil => rfl
  | cons c outer => simp [arena, Arena.size]

/-- A node linked to the innermost call stands after all others. -/
theorem link_push (c : OpenCall) (outer : Spine) (head : Head) (span : Span) :
    ((arena (c :: outer)).push head span).1.link (size outer) (size (c :: outer)) =
      ⟨(nodes (c :: outer) [size (c :: outer)] ++ [Node.mk head span (some (size outer)) []]).toArray, some 0⟩ := by
  have hnew : ∀ n : Node, (nodes (c :: outer) [] ++ [n]).modify (size (c :: outer))
      (fun n => { n with parent := some (size outer) }) =
      nodes (c :: outer) [] ++ [{ n with parent := some (size outer) }] := by
    intro n
    have := modify_append_cons (fun n : Node => { n with parent := some (size outer) }) n [] (nodes (c :: outer) [])
    rwa [length_nodes] at this
  simp only [Arena.link, Arena.push, arena, List.push_toArray, List.modify_toArray, hnew]
  congr 2
  -- the innermost call stands right after the nodes of the calls around it
  rw [nodes, List.append_assoc, List.cons_append]
  have := modify_append_cons (fun n : Node => { n with children := n.children ++ [size (c :: outer)] })
    ⟨.operator c.op, c.span, innermost outer, Expression.positions (size outer + 1) c.args ++ []⟩
    (Expression.nodesAll (some (size outer)) (size outer + 1) c.args ++ [⟨head, span, some (size outer), []⟩])
    (nodes outer [size outer])
  rw [length_nodes] at this
  rw [this]
  simp [nodes]

end Spine

theorem ParseState.attach_below {s : ParseState} {head : Head} {tok : Token} {parent : NodeId} {outer : List NodeId}
    {b : Arena} (ho : s.opened = parent :: outer)
    (hl : (s.arena.push head tok.span).1.addChild parent s.arena.size = .ok b) :
    s.attach head tok = .ok (b, s.arena.size) := by
  have hid : (s.arena.push head tok.span).2 = s.arena.size := rfl
  simp only [attach, ho, hid, hl, Except.mapError]

namespace Spine

/-- A node for the next token goes below the innermost call, or becomes the root. -/
theorem attach_eq (spine : Spine) (expects : Expectation) (head : Head) (tok : Token) :
    (ParseState.mk (arena spine) (ids spine) expects).attach head tok =
      .ok (Arena.mk (nodes spine [size spine] ++ [Node.mk head tok.span (innermost spine) []]).toArray (some 0),
        size spine) := by
  cases spine with
  | nil => rfl
  | cons c outer =>
    have hroot : (arena (c :: outer)).root ≠ some (arena (c :: outer)).size := by
      rw [size_arena]
      intro h
      have h0 : 0 = size (c :: outer) := Option.some.inj h
      have := size_lt c outer
      omega
    have hlink := Arena.addChild_push head tok.span (by rw [size_arena]; exact size_lt c outer) hroot
      (fun i p h => arena_parent_lt h)
    have hopened : (ParseState.mk (arena (c :: outer)) (ids (c :: outer)) expects).opened = size outer :: ids outer := rfl
    rw [ParseState.attach_below hopened hlink, size_arena, link_push]
    rfl

end Spine

/-! ## The machine -/

/-- How far a reading has come. -/
inductive Progress where
  /-- An operand is due, as the next argument of the innermost call or as the whole expression. -/
  | operand (spine : Spine)
  /-- An operator has been read, its parenthesis not. -/
  | called (op : Operator) (span : Span) (outer : Spine)
  /-- An argument of the innermost call has just been completed. -/
  | after (call : OpenCall) (outer : Spine)
  /-- The whole expression has been read. -/
  | complete (e : Expression)

namespace Progress

/-- A complete operand inside open calls. -/
def add (e : Expression) : Spine → Progress
  | [] => complete e
  | c :: outer => after (c.add e) outer

/-- The parser at this point. -/
def toState : Progress → ParseState
  | operand spine => ⟨spine.arena, spine.ids, .operand⟩
  | called op span outer => ⟨Spine.arena (⟨op, span, []⟩ :: outer), Spine.ids (⟨op, span, []⟩ :: outer), .openParen⟩
  | after call outer => ⟨Spine.arena (call :: outer), Spine.ids (call :: outer), .separator⟩
  | complete e => ⟨e.arena, [], .separator⟩

/-- One token. -/
def step (resolves : String → Bool) : Progress → Token → Except ParseError Progress
  | operand spine, ⟨.word word, span⟩ =>
    match Operator.ofWord? word with
    | some op => .ok (called op span spine)
    | none =>
      match leafOfWord? resolves word with
      | some leaf => .ok (add (.node leaf span []) spine)
      | none => .error (unknownWord word span)
  | operand _, ⟨found, span⟩ => .error (.malformed (.expectedOperand found) span)
  | called op start outer, ⟨.openParen, _⟩ => .ok (operand (⟨op, start, []⟩ :: outer))
  | called op _ _, ⟨found, span⟩ => .error (.malformed (.expectedOpenParen op.text found) span)
  | after call outer, ⟨.comma, _⟩ => .ok (operand (call :: outer))
  | after call outer, ⟨.closeParen, _⟩ => .ok (add call.close outer)
  | complete _, ⟨.comma, span⟩ => .error (.malformed .commaOutside span)
  | complete _, ⟨.closeParen, span⟩ => .error (.malformed .unbalanced span)
  | after _ _, ⟨found, span⟩ => .error (.malformed (.expectedSeparator found) span)
  | complete _, ⟨found, span⟩ => .error (.malformed (.expectedSeparator found) span)

/-- The end of the input, which is at `stop`. -/
def finish (stop : Nat) : Progress → Except ParseError Expression
  | complete e => .ok e
  | operand [] => .error (.malformed .noExpression ⟨stop, 0⟩)
  | operand (c :: outer) => .error (.malformed (.unclosed (.operator c.op) outer.length) c.span)
  | called op span outer => .error (.malformed (.unclosed (.operator op) outer.length) span)
  | after c outer => .error (.malformed (.unclosed (.operator c.op) outer.length) c.span)

/-- Completing an operand numbers it after all that has been read. -/
theorem toState_add (e : Expression) (spine : Spine) :
    (add e spine).toState =
      ⟨⟨(spine.nodes [spine.size] ++ e.nodes spine.innermost spine.size).toArray, some 0⟩, spine.ids, .separator⟩ := by
  cases spine with
  | nil => rfl
  | cons c outer =>
    show ParseState.mk ⟨(Spine.nodes (c.add e :: outer) []).toArray, some 0⟩ _ _ = _
    rw [← Spine.nodes_add]
    rfl

/-- The innermost call of a chain stands where its node is said to be. -/
theorem node?_innermost (c : OpenCall) (outer : Spine) :
    ∃ n, (Spine.arena (c :: outer)).node? (Spine.size outer) = some n ∧ n.head = .operator c.op ∧ n.span = c.span := by
  refine ⟨⟨.operator c.op, c.span, outer.innermost, Expression.positions (outer.size + 1) c.args ++ []⟩, ?_, rfl, rfl⟩
  simp [Spine.arena, Arena.node?, Spine.nodes]

/-- The parser does what the machine does. -/
theorem step_toState (resolves : String → Bool) (p : Progress) (tok : Token) :
    p.toState.step resolves tok = (p.step resolves tok).map toState := by
  obtain ⟨kind, span⟩ := tok
  cases p with
  | operand spine =>
    cases kind with
    | word word =>
      simp only [toState, ParseState.step, ParseState.operand, step]
      cases Operator.ofWord? word with
      | some op =>
        simp only [Spine.attach_eq]
        simp [bind, Except.bind, pure, Except.pure, Except.map, toState, Spine.arena, Spine.ids, Spine.nodes,
          Expression.positions, Expression.nodesAll]
      | none =>
        cases leafOfWord? resolves word with
        | some leaf =>
          simp only [Spine.attach_eq, Except.map, toState_add]
          rfl
        | none => rfl
    | openParen => rfl
    | closeParen => rfl
    | comma => rfl
  | called op start outer =>
    -- the error names the operator, which the parser looks up in the arena
    obtain ⟨n, hn, hhead, -⟩ := node?_innermost ⟨op, start, []⟩ outer
    cases kind with
    | openParen => rfl
    | closeParen | comma | word =>
      simp only [toState, ParseState.step, ParseState.openParen, step, Except.map, Spine.ids, List.head?_cons,
        Option.bind_some, hn, Option.map_some, Option.getD_some, hhead, Head.text]
  | after call outer =>
    cases kind with
    | closeParen =>
      show Except.ok (ParseState.mk (Spine.arena (call :: outer)) outer.ids .separator) =
        .ok (add call.close outer).toState
      rw [toState_add]
      simp [Spine.arena, Spine.nodes, OpenCall.close, Expression.nodes]
    | openParen | comma | word => rfl
  | complete e =>
    cases kind <;> rfl

theorem finish_toState (stop : Nat) (p : Progress) :
    p.toState.finish stop = (p.finish stop).map Expression.arena := by
  have hopen : ∀ (c : OpenCall) (outer : Spine) (expects : Expectation),
      (ParseState.mk (Spine.arena (c :: outer)) (Spine.ids (c :: outer)) expects).finish stop =
        .error (.malformed (.unclosed (.operator c.op) outer.length) c.span) := by
    intro c outer expects
    obtain ⟨n, hn, hhead, hspan⟩ := node?_innermost c outer
    have hlen : (Spine.ids outer).length = outer.length := Spine.length_ids outer
    simp only [ParseState.finish, Spine.arena, Spine.ids] at hn ⊢
    simp only [hn, hhead, hspan, hlen]
  cases p with
  | operand spine =>
    cases spine with
    | nil => rfl
    | cons c outer => exact hopen c outer _
  | called op span outer => exact hopen ⟨op, span, []⟩ outer _
  | after c outer => exact hopen c outer _
  | complete e => rfl

theorem foldlM_toState (resolves : String → Bool) : ∀ (tokens : List Token) (p : Progress),
    tokens.foldlM (ParseState.step resolves) p.toState = (tokens.foldlM (step resolves) p).map toState
  | [], _ => rfl
  | tok :: tokens, p => by
    rw [List.foldlM_cons, List.foldlM_cons, step_toState]
    cases p.step resolves tok with
    | ok q => exact foldlM_toState resolves tokens q
    | error e => rfl

/-- The expression that a token list is read as. -/
def read (resolves : String → Bool) (tokens : List Token) : Except ParseError Expression := do
  let p ← tokens.foldlM (step resolves) (operand [])
  p.finish ((tokens.getLast?.map (·.span.stop)).getD 0)

end Progress

/-- The parser returns the numbering of the expression that the machine reads, or its error. -/
theorem parseTokens_eq (resolves : String → Bool) (tokens : List Token) :
    parseTokens resolves tokens = (Progress.read resolves tokens).map Expression.arena := by
  have h := Progress.foldlM_toState resolves tokens (.operand [])
  rw [parseTokens, Progress.read, show ParseState.initial = (Progress.operand []).toState from rfl, h]
  cases tokens.foldlM (Progress.step resolves) (.operand []) with
  | ok p => exact p.finish_toState _
  | error e => rfl

end RoadPolicy
