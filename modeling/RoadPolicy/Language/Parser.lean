/-
Reading expressions. An expression is an operator with its arguments in parentheses, or a leaf: a
literal, a marker or a name that some space defines. The parser takes one token at a time; it keeps
the arena built so far, the operators whose argument lists are open, and what may come next. Names
are resolved while they are read, so an expression with an unknown name is never built.
-/
import RoadPolicy.Language.Arena
import RoadPolicy.Language.Token

namespace RoadPolicy

/-! ## Errors -/

/-- Why a token list is no expression. -/
inductive SyntaxFault where
  | expectedOperand (found : TokenKind)
  | unrecognized (word : String)
  | expectedOpenParen (op : String) (found : TokenKind)
  | expectedSeparator (found : TokenKind)
  | commaOutside
  | unbalanced
  | trailing (found : TokenKind)
  | noExpression
  | unclosed (innermost : Head) (enclosing : Nat)
  | endOfInput
  /-- The source could not be cut into tokens. -/
  | lexical (detail : String)
  /-- The arena refused a link. -/
  | refused (why : Refusal)
deriving DecidableEq, Repr

/-- The wording of a fault. -/
def SyntaxFault.message : SyntaxFault → String
  | expectedOperand found =>
    "expected an operator, literal, macro or name, found '" ++ found.text ++ "'"
  | unrecognized word => "unrecognized token '" ++ word ++ "'"
  | expectedOpenParen op found =>
    "expected '(' after operator '" ++ op ++ "', found '" ++ found.text ++ "'"
  | expectedSeparator found => "expected ',' or ')', found '" ++ found.text ++ "'"
  | commaOutside => "',' outside of an argument list"
  | unbalanced => "unbalanced ')'"
  | trailing found => "unexpected '" ++ found.text ++ "' after the end of the expression"
  | noExpression => "empty expression"
  | unclosed innermost enclosing =>
    "unexpected end of input: '" ++ innermost.text ++ "' and " ++ toString enclosing ++
      " enclosing operator(s) are not closed"
  | endOfInput => "unexpected end of input"
  | lexical detail => detail
  | refused why => why.message

/-- Why a source is no expression, and where. -/
inductive ParseError where
  | malformed (fault : SyntaxFault) (span : Span)
  /-- A name that no space defines. -/
  | unresolved (name : String) (span : Span)
deriving DecidableEq, Repr

namespace ParseError

def span : ParseError → Span
  | malformed _ s => s
  | unresolved _ s => s

/-- The wording of an error. -/
def message : ParseError → String
  | malformed fault _ => "parse error: " ++ fault.message
  | unresolved name _ => "unresolved symbol '" ++ name ++ "': it is not defined in any space"

/-- A lexical error, reported by the parser. -/
def ofLexical (e : LexError) : ParseError := malformed (.lexical e.detail) e.span

end ParseError

/-! ## Words -/

/-- A letter or underscore, then letters, digits, underscores and points. -/
def isIdentifier (word : String) : Bool :=
  match word.toList with
  | [] => false
  | c :: cs => (c.isAlpha || c == '_') && cs.all fun d => d.isAlphanum || d == '_' || d == '.'

/-- What a word stands for where a leaf is expected: a literal, else a marker, else a name that
resolves. -/
def leafOfWord? (resolves : String → Bool) (word : String) : Option Head :=
  match Literal.ofWord? word with
  | some l => some (.literal l)
  | none =>
    match Marker.ofWord? word with
    | some m => some (.marker m)
    | none => if resolves word then some (.symbol word) else none

/-- The complaint about a word that is no leaf: an identifier lacks a definition, anything else is
no word of the language. -/
def unknownWord (word : String) (span : Span) : ParseError :=
  if isIdentifier word then .unresolved word span else .malformed (.unrecognized word) span

/-! ## The parser -/

/-- What may come next. -/
inductive Expectation where
  /-- An operator or a leaf. -/
  | operand
  /-- The parenthesis after an operator. -/
  | openParen
  /-- A comma or a closing parenthesis, after a complete operand. -/
  | separator
deriving DecidableEq, Repr

/-- The parser between two tokens. -/
structure ParseState where
  arena : Arena
  /-- The operators whose argument lists are open, innermost first. -/
  opened : List NodeId
  expects : Expectation

namespace ParseState

/-- Before the first token. -/
def initial : ParseState := ⟨.empty, [], .operand⟩

/-- Adds a node for a token, below the innermost open operator or as the root. -/
def attach (s : ParseState) (head : Head) (tok : Token) : Except ParseError (Arena × NodeId) :=
  let (arena, id) := s.arena.push head tok.span
  let linked :=
    match s.opened with
    | parent :: _ => (arena.addChild parent id).mapError SyntaxFault.refused
    | [] =>
      match arena.root with
      | none => (arena.setRoot id).mapError SyntaxFault.refused
      | some _ => .error (.trailing tok.kind)
  match linked with
  | .ok arena => .ok (arena, id)
  | .error fault => .error (.malformed fault tok.span)

/-- A token where an operand is expected. -/
def operand (resolves : String → Bool) (s : ParseState) (tok : Token) :
    Except ParseError ParseState :=
  match tok.kind with
  | .word word =>
    match Operator.ofWord? word with
    | some op => do
      let (arena, id) ← s.attach (.operator op) tok
      return ⟨arena, id :: s.opened, .openParen⟩
    | none =>
      match leafOfWord? resolves word with
      | some leaf => do
        let (arena, _) ← s.attach leaf tok
        return ⟨arena, s.opened, .separator⟩
      | none => .error (unknownWord word tok.span)
  | found => .error (.malformed (.expectedOperand found) tok.span)

/-- A token right after an operator. -/
def openParen (s : ParseState) (tok : Token) : Except ParseError ParseState :=
  match tok.kind with
  | .openParen => .ok { s with expects := .operand }
  | found =>
    let op := ((s.opened.head?.bind s.arena.node?).map (·.head.text)).getD ""
    .error (.malformed (.expectedOpenParen op found) tok.span)

/-- A token after a complete operand. -/
def separator (s : ParseState) (tok : Token) : Except ParseError ParseState :=
  match tok.kind with
  | .comma =>
    match s.opened with
    | [] => .error (.malformed .commaOutside tok.span)
    | _ :: _ => .ok { s with expects := .operand }
  | .closeParen =>
    match s.opened with
    | [] => .error (.malformed .unbalanced tok.span)
    | _ :: outer => .ok { s with opened := outer }
  | found => .error (.malformed (.expectedSeparator found) tok.span)

/-- One token. -/
def step (resolves : String → Bool) (s : ParseState) (tok : Token) : Except ParseError ParseState :=
  match s.expects with
  | .operand => s.operand resolves tok
  | .openParen => s.openParen tok
  | .separator => s.separator tok

/-- The end of the input, which is at `stop`. -/
def finish (s : ParseState) (stop : Nat) : Except ParseError Arena :=
  match s.arena.root with
  | none => .error (.malformed .noExpression ⟨stop, 0⟩)
  | some _ =>
    match s.opened with
    | id :: outer =>
      match s.arena.node? id with
      | some n => .error (.malformed (.unclosed n.head outer.length) n.span)
      | none => .error (.malformed .endOfInput ⟨stop, 0⟩)
    | [] =>
      if s.expects = .separator then .ok s.arena
      else .error (.malformed .endOfInput ⟨stop, 0⟩)

end ParseState

/-- Reads a token list as one expression. -/
def parseTokens (resolves : String → Bool) (tokens : List Token) : Except ParseError Arena := do
  let s ← tokens.foldlM (ParseState.step resolves) .initial
  s.finish ((tokens.getLast?.map (·.span.stop)).getD 0)

/-- Reads a source as one expression; `resolves` says which names are defined. -/
def parse (resolves : String → Bool) (source : String) : Except ParseError Arena :=
  parseTokens resolves (tokenize source)

end RoadPolicy
