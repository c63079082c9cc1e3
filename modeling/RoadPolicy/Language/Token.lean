/-
Tokens of the policy language. Blank characters are dropped first, so that they never separate
words; what is left is cut at the three delimiters, and everything between two delimiters is one
word. The span of a token reaches from its first character to its last one in the source as
written, blanks in between included.
-/
import RoadPolicy.Text.Blank
import RoadPolicy.Text.Span

namespace RoadPolicy

/-- What a token is. -/
inductive TokenKind where
  | openParen
  | closeParen
  | comma
  | word (text : String)
deriving DecidableEq, Repr

/-- A token and where it stands. -/
structure Token where
  kind : TokenKind
  span : Span
deriving DecidableEq, Repr

namespace TokenKind

/-- The token as it is written. -/
def text : TokenKind → String
  | openParen => "("
  | closeParen => ")"
  | comma => ","
  | word w => w

/-- The token that a delimiter stands for. -/
def ofDelimiter? : Char → Option TokenKind
  | '(' => some openParen
  | ')' => some closeParen
  | ',' => some comma
  | _ => none

end TokenKind

/-! ## Cutting a source into tokens -/

/-- The characters that are not blank, each with its place; `offset` is where the list starts. -/
def visibleFrom (offset : Nat) : List Char → List (Char × Span)
  | [] => []
  | c :: cs =>
    let rest := visibleFrom (offset + c.utf8Size) cs
    if isBlank c then rest else (c, ⟨offset, c.utf8Size⟩) :: rest

/-- Puts one character in front of a list of tokens: a delimiter is a token, any other character
extends the word that starts the list or is a word of its own. -/
def Token.consChar (p : Char × Span) (tokens : List Token) : List Token :=
  match TokenKind.ofDelimiter? p.1 with
  | some kind => ⟨kind, p.2⟩ :: tokens
  | none =>
    match tokens with
    | ⟨.word w, span⟩ :: rest => ⟨.word (String.singleton p.1 ++ w), p.2.through span⟩ :: rest
    | _ => ⟨.word (String.singleton p.1), p.2⟩ :: tokens

/-- The tokens of a source. There is no text that cannot be cut. -/
def tokenize (source : String) : List Token :=
  (visibleFrom 0 source.toList).foldr Token.consChar []

/-! ## Lexical errors -/

/-- A complaint about the characters of a source. No text gives rise to one here; it exists for
front ends that read sources by other rules. -/
structure LexError where
  detail : String
  span : Span
deriving DecidableEq, Repr

/-- The wording of a lexical error. -/
def LexError.message (e : LexError) : String := "lex error: " ++ e.detail

end RoadPolicy
