/-
Reading settings files. `readDocument` turns the text of a file into the fields of its outermost
table. The notation has comments, bare and quoted keys, texts on one line or several, integers in
four bases, numbers with a point or an exponent, truth values, dates and times, lists, and tables
written out in full. Values may be nested to a fixed depth only, and keys have only so many parts.
-/
import RoadPolicy.Config.Item
import RoadPolicy.Config.Numeral

namespace RoadPolicy.Config

/-! ## Characters and blanks -/

/-- A space within a line. -/
def isGap (c : Char) : Bool := c == ' ' || c == '\t'

/-- A character that a comment or a text may contain. -/
def isPrintable (c : Char) : Bool := c == '\t' || (' ' ≤ c && c != '\x7f')

/-- Lines may end in a line feed or in a carriage return and a line feed; the reader sees the first
form only. -/
def unixLines : List Char → List Char
  | '\r' :: '\n' :: cs => '\n' :: unixLines cs
  | c :: cs => c :: unixLines cs
  | [] => []

def skipGap (cs : List Char) : List Char := cs.dropWhile isGap

/-- Leaves out a comment. -/
def skipComment : List Char → List Char
  | '#' :: cs => cs.dropWhile isPrintable
  | cs => cs

/-- The next line, if nothing but a comment is left of this one. -/
def endLine? (cs : List Char) : Option (List Char) :=
  match skipComment (skipGap cs) with
  | [] => some []
  | '\n' :: cs => some cs
  | _ => none

/-- Leaves out spaces, line ends and comments. The flag tells that a comment is being left out. -/
def skipLines (comment : Bool) : List Char → List Char
  | [] => []
  | c :: cs =>
    if comment then
      if c == '\n' then skipLines false cs
      else if isPrintable c then skipLines true cs
      else c :: cs
    else if isGap c || c == '\n' then skipLines false cs
    else if c == '#' then skipLines true cs
    else c :: cs

/-! ## Texts -/

/-- The character with a number in base sixteen. -/
def charOfHex? (digits : List Char) : Option Char := do
  let values ← digits.mapM (digitValue? 16)
  let n := values.foldl (fun n d => 16 * n + d) 0
  if n.isValidChar then some (Char.ofNat n) else none

/-- The character of a one-letter escape. -/
def escaped? : Char → Option Char
  | 'b' => some '\x08'
  | 't' => some '\t'
  | 'n' => some '\n'
  | 'f' => some '\x0c'
  | 'r' => some '\r'
  | '"' => some '"'
  | '\\' => some '\\'
  | _ => none

/-- Puts a character before a text that was read. -/
def consRead (c : Char) (rest : Option (List Char × List Char)) :
    Option (List Char × List Char) :=
  rest.map fun r => (c :: r.1, r.2)

/-- The rest of a text on one line, in which escapes are read. -/
def quoted? : List Char → Option (List Char × List Char)
  | '"' :: cs => some ([], cs)
  | '\\' :: 'u' :: a :: b :: c :: d :: cs => do
    consRead (← charOfHex? [a, b, c, d]) (quoted? cs)
  | '\\' :: 'U' :: a :: b :: c :: d :: e :: f :: g :: h :: cs => do
    consRead (← charOfHex? [a, b, c, d, e, f, g, h]) (quoted? cs)
  | '\\' :: c :: cs => do consRead (← escaped? c) (quoted? cs)
  | c :: cs => if isPrintable c then consRead c (quoted? cs) else none
  | [] => none

/-- The rest of a text on one line, in which every character stands for itself. -/
def verbatim? : List Char → Option (List Char × List Char)
  | '\'' :: cs => some ([], cs)
  | c :: cs => if isPrintable c then consRead c (verbatim? cs) else none
  | [] => none

/-- The end of a text between triple marks, which may itself end in one or two marks. -/
def closeTriple? (mark : Char) (cs : List Char) : Option (List Char × List Char) :=
  let marks := (cs.takeWhile (· == mark)).take 5
  if marks.length < 3 then none else some (marks.drop 3, cs.drop marks.length)

/-- A backslash at the end of a line, up to spaces. -/
def continues (cs : List Char) : Bool := (skipGap cs).head? == some '\n'

/-- The rest of a text over several lines, in which escapes are read. A backslash at the end of a
line leaves out the line end and the blanks after it; the flag tells that these are being left out. -/
def tripleQuoted? (blanks : Bool) : List Char → Option (List Char × List Char)
  | [] => none
  | c :: cs =>
    if blanks && (isGap c || c == '\n') then tripleQuoted? true cs
    else
      match closeTriple? '"' (c :: cs) with
      | some r => some r
      | none =>
        if c == '\\' then
          match cs with
          | 'u' :: a :: b :: d :: e :: cs => do
            consRead (← charOfHex? [a, b, d, e]) (tripleQuoted? false cs)
          | 'U' :: a :: b :: d :: e :: f :: g :: h :: i :: cs => do
            consRead (← charOfHex? [a, b, d, e, f, g, h, i]) (tripleQuoted? false cs)
          | e :: cs =>
            if continues (e :: cs) then tripleQuoted? true cs
            else do consRead (← escaped? e) (tripleQuoted? false cs)
          | [] => none
        else if isPrintable c || c == '\n' then consRead c (tripleQuoted? false cs)
        else none

/-- The rest of a text over several lines, in which every character stands for itself. -/
def tripleVerbatim? : List Char → Option (List Char × List Char)
  | [] => none
  | c :: cs =>
    match closeTriple? '\'' (c :: cs) with
    | some r => some r
    | none =>
      if isPrintable c || c == '\n' then consRead c (tripleVerbatim? cs) else none

/-- A line end right after the opening marks does not count. -/
def skipLineEnd : List Char → List Char
  | '\n' :: cs => cs
  | cs => cs

/-! ## Keys -/

def isBareKey (c : Char) : Bool := c.isAlphanum || c == '_' || c == '-'

/-- One part of a key. -/
def keyPart? : List Char → Option (String × List Char)
  | '"' :: cs => (quoted? cs).map fun r => (String.ofList r.1, r.2)
  | '\'' :: cs => (verbatim? cs).map fun r => (String.ofList r.1, r.2)
  | cs =>
    match cs.takeWhile isBareKey with
    | [] => none
    | part => some (String.ofList part, cs.dropWhile isBareKey)

/-- How many parts a key may have, and how many lists and tables a value may open one inside
another. -/
def maxDepth : Nat := 79

/-- A key of at most so many parts: the path to a table and the name in it. Points divide the parts,
and spaces may stand around them. -/
def keyWithin? : Nat → List Char → Option ((List String × String) × List Char)
  | 0, _ => none
  | parts + 1, cs => do
    let (part, cs) ← keyPart? (skipGap cs)
    match skipGap cs with
    | '.' :: cs =>
      let ((path, name), cs) ← keyWithin? parts cs
      return ((part :: path, name), cs)
    | cs => return (([], part), cs)

/-- A key and what follows it. -/
def key? (cs : List Char) : Option ((List String × String) × List Char) := keyWithin? maxDepth cs

/-! ## Words -/

/-- A character of a number or of a truth value. -/
def isWordChar (c : Char) : Bool := c.isAlphanum || c == '_' || c == '.' || c == '+' || c == '-'

/-- The value of a word without marks around it. -/
def word? (cs : List Char) : Option Item :=
  if cs == ['t', 'r', 'u', 'e'] then some (.boolean true)
  else if cs == ['f', 'a', 'l', 's', 'e'] then some (.boolean false)
  else
    match integer? cs with
    | some n => some (.integer n)
    | none => if isFloat cs then some (.float (String.ofList cs)) else none

/-! ## Values -/

/-- The text that was read, as a value. -/
def textItem (r : List Char × List Char) : Item × List Char := (.text (String.ofList r.1), r.2)

/-- A value that is neither marked nor nested, and what follows it. -/
def plain? (cs : List Char) : Option (Item × List Char) :=
  match moment? cs with
  | some (m, cs) => some (.moment m, cs)
  | none => (word? (cs.takeWhile isWordChar)).map fun i => (i, cs.dropWhile isWordChar)

mutual

/-- A value and what follows it. The second number tells how many lists and tables may still be
opened one inside another. -/
def item? : Nat → Nat → List Char → Option (Item × List Char)
  | 0, _, _ => none
  | _ + 1, _, '"' :: '"' :: '"' :: cs => (tripleQuoted? false (skipLineEnd cs)).map textItem
  | _ + 1, _, '"' :: cs => (quoted? cs).map textItem
  | _ + 1, _, '\'' :: '\'' :: '\'' :: cs => (tripleVerbatim? (skipLineEnd cs)).map textItem
  | _ + 1, _, '\'' :: cs => (verbatim? cs).map textItem
  | _ + 1, 0, '[' :: _ => none
  | _ + 1, 0, '\x7b' :: _ => none
  | fuel + 1, depth + 1, '[' :: cs => do
    let (items, cs) ← items? fuel depth (skipLines false cs)
    return (.list items, cs)
  | fuel + 1, depth + 1, '\x7b' :: cs =>
    match skipGap cs with
    | '\x7d' :: cs => some (.record [], cs)
    | cs => do
      let (fields, cs) ← record? fuel depth [] cs
      return (.record fields, cs)
  | _ + 1, _, cs => plain? cs

/-- The elements of a list up to its end. A comma may follow the last one. -/
def items? : Nat → Nat → List Char → Option (List Item × List Char)
  | 0, _, _ => none
  | _ + 1, _, ']' :: cs => some ([], cs)
  | fuel + 1, depth, cs => do
    let (i, cs) ← item? fuel depth cs
    match skipLines false cs with
    | ',' :: cs =>
      let (rest, cs) ← items? fuel depth (skipLines false cs)
      return (i :: rest, cs)
    | ']' :: cs => return ([i], cs)
    | _ => none

/-- The assignments of a table written out in full, up to its end. It stays on one line, and no comma
follows the last one. -/
def record? : Nat → Nat → Fields → List Char → Option (Fields × List Char)
  | 0, _, _, _ => none
  | fuel + 1, depth, fields, cs => do
    let ((path, name), cs) ← key? cs
    match cs with
    | '=' :: cs =>
      let (i, cs) ← item? fuel depth (skipGap cs)
      let fields ← fields.assign path name i
      match skipGap cs with
      | ',' :: cs => record? fuel depth fields cs
      | '\x7d' :: cs => return (fields, cs)
      | _ => none
    | _ => none

end

/-! ## Documents -/

/-- What the lines so far have defined, and the path of the last header. -/
structure Draft where
  fields : Fields := []
  header : List String := []

/-- Reads one line, or more if a value goes on. -/
def readLine? (fuel : Nat) (p : Draft) : List Char → Option (Draft × List Char)
  | '[' :: '[' :: cs => do
    let ((path, name), cs) ← key? cs
    match cs with
    | ']' :: ']' :: cs =>
      let fields ← Fields.within (Fields.openRow name) p.fields path
      return (⟨fields, path ++ [name]⟩, ← endLine? cs)
    | _ => none
  | '[' :: cs => do
    let ((path, name), cs) ← key? cs
    match cs with
    | ']' :: cs =>
      let fields ← Fields.within (Fields.openTable name) p.fields path
      return (⟨fields, path ++ [name]⟩, ← endLine? cs)
    | _ => none
  | cs =>
    match endLine? cs with
    | some cs => some (p, cs)
    | none => do
      let ((path, name), cs) ← key? cs
      match cs with
      | '=' :: cs =>
        let (i, cs) ← item? fuel maxDepth (skipGap cs)
        let fields ← Fields.within (fun t => t.assign path name i) p.fields p.header
        return (⟨fields, p.header⟩, ← endLine? cs)
      | _ => none

/-- Reads all lines. -/
def readLines? : Nat → Draft → List Char → Option Fields
  | _, p, [] => some p.fields
  | 0, _, _ => none
  | fuel + 1, p, cs => do
    let (p, cs) ← readLine? (2 * cs.length + 2) p (skipGap cs)
    readLines? fuel p cs

/-- The fields of a settings file, if it is well formed. A byte order mark may open the file. -/
def readDocument (text : String) : Option Fields :=
  let cs := unixLines text.toList
  let cs := match cs with
    | '\ufeff' :: cs => cs
    | cs => cs
  readLines? cs.length {} cs

end RoadPolicy.Config
