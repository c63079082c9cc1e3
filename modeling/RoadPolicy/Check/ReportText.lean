/-
Reports as JSON text, one entry to a line and two spaces deeper with every level.
-/
import RoadPolicy.Check.Report
import RoadPolicy.Number.Shortest

namespace RoadPolicy

/-! ## JSON -/

/-- A hexadecimal digit in lower case. -/
def hexDigit (n : Nat) : Char :=
  if n < 10 then Char.ofNat ('0'.toNat + n) else Char.ofNat ('a'.toNat + (n - 10))

/-- A character inside a JSON string: quotes, backslashes and control characters are escaped. -/
def jsonChar (c : Char) : String :=
  if c == '"' then "\\\""
  else if c == '\\' then "\\\\"
  else if c == '\n' then "\\n"
  else if c == '\r' then "\\r"
  else if c == '\t' then "\\t"
  else if c.toNat == 8 then "\\b"
  else if c.toNat == 12 then "\\f"
  else if c.toNat < 32 then
    "\\u00" ++ String.singleton (hexDigit (c.toNat / 16)) ++
      String.singleton (hexDigit (c.toNat % 16))
  else String.singleton c

def jsonString (s : String) : String :=
  "\"" ++ String.join (s.toList.map jsonChar) ++ "\""

/-- A JSON object, or a value that is already text. -/
inductive JsonTree where
  | leaf (text : String)
  | object (fields : List (String × JsonTree))

namespace JsonTree

/-- A new line at a given depth. -/
def lineAt (depth : Nat) : String := "\n".pushn ' ' (2 * depth)

mutual

/-- The text of a tree that stands at a given depth. -/
def pretty (depth : Nat) : JsonTree → String
  | leaf text => text
  | object [] => "\x7b\x7d"
  | object (f :: fs) =>
    "\x7b" ++ lineAt (depth + 1) ++ prettyField (depth + 1) f ++ prettyRest (depth + 1) fs ++
      lineAt depth ++ "\x7d"

def prettyField (depth : Nat) : String × JsonTree → String
  | (name, value) => jsonString name ++ ": " ++ value.pretty depth

/-- The fields after the first one. -/
def prettyRest (depth : Nat) : List (String × JsonTree) → String
  | [] => ""
  | f :: fs => "," ++ lineAt depth ++ prettyField depth f ++ prettyRest depth fs

end

end JsonTree

/-! ## Reports -/

/-- In a report, doubles are written positionally from `0.00001` up to sixteen digits before the
point. -/
def Report.decimalLayout : DecimalLayout := ⟨-5, 16⟩

/-- A scalar in a report; what is no finite number is null. -/
def Scalar.jsonText : Scalar → String
  | bool b => if b then "true" else "false"
  | int n => toString n.toInt
  | real x => (finiteFloatText? Report.decimalLayout x).getD "null"

namespace Report

def scalars (d : Dict Scalar) : JsonTree :=
  .object (d.entries.map fun e => (e.1, .leaf e.2.jsonText))

/-- The common values first, then a bucket for every kind. -/
def toJson (r : Report) : JsonTree :=
  .object (("common", scalars r.common) :: reportedKinds.map fun k =>
    (k.label, .object ((r.bucket k).entries.map fun e => (e.1, scalars e.2))))

/-- The text of a report. -/
def text (r : Report) : String := r.toJson.pretty 0

end Report

end RoadPolicy
