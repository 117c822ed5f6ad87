import SurveyBranching.Json.Basic
import SurveyBranching.Number.Shortest
/-!
# Writing JSON text

Two layouts of one value: `compact` with no blanks at all, and `pretty` with one item per
line, two spaces of indent per level, `": "` after a key, and `[]` or `{}` for an empty
container. Members are written in the order the value holds them.

Strings are quoted with the fewest escapes: the quote, the backslash, and the control
characters below U+0020, those with a short form (`\b \t \n \f \r`) in it and the others as
`\u00XX` with lower-case hex digits. Every other character is written as itself.

A double is written by `doubleText`: the shortest digits that read back (`Shortest.digits`)
laid out by `Json.doubleLayout`, the layout record of this format.

## Main definitions

* `Json.quote`: a string literal.
* `Json.DoubleLayout`, `Json.doubleLayout`, `Json.doubleText`: how a double is written.
* `Json.compact`, `Json.pretty`.
-/

namespace SurveyBranching.Json

/-! ## Strings -/

/-- The two lower-case hex digits of a byte. -/
def hexByte (n : Nat) : String :=
  let digit (d : Nat) : Char := if d < 10 then Char.ofNat (48 + d) else Char.ofNat (87 + d)
  String.ofList [digit (n / 16 % 16), digit (n % 16)]

/-- The escaped form of one character inside a string literal. -/
def escapeChar (c : Char) : String :=
  match c with
  | '"' => "\\\""
  | '\\' => "\\\\"
  | '\x08' => "\\b"
  | '\t' => "\\t"
  | '\n' => "\\n"
  | '\x0c' => "\\f"
  | '\r' => "\\r"
  | _ => if c.toNat < 0x20 then "\\u00" ++ hexByte c.toNat else String.singleton c

/-- A string literal: the text between quotes, escaped. -/
def quote (s : String) : String :=
  "\"" ++ String.join (s.toList.map escapeChar) ++ "\""

/-! ## Doubles -/

/-- Where a double's digits are written positionally. With `n` significant digits and the
decimal point after digit `p` (`p = n + exponent`): a whole number is written in full, with
`.0`, while `p ≤ maxPoint`; a point inside the digits is written while `0 < p ≤ maxPoint`; a
leading `0.` and zeros while `minPoint < p ≤ 0`; all else in scientific form `d.ddde<x>`,
the exponent with a minus sign when negative, and a plus sign when positive if `plusSign`. -/
structure DoubleLayout where
  maxPoint : Nat
  minPoint : Int
  plusSign : Bool

/-- This format writes positionally up to sixteen digits before the point and up to five
zeros after it, and signs every exponent. -/
def doubleLayout : DoubleLayout := ⟨16, -5, true⟩

/-- A string of `n` zeros. -/
def zeros (n : Nat) : String :=
  String.ofList (List.replicate n '0')

/-- The text of a positive decimal `d · 10^k` laid out by `doubleLayout`. -/
def decimalText (d : Shortest.Decimal) : String :=
  let s := toString d.digits
  let n : Int := s.length
  let k := d.exponent
  let p := n + k
  if 0 ≤ k && p ≤ doubleLayout.maxPoint then s ++ zeros k.toNat ++ ".0"
  else if 0 < p && p ≤ doubleLayout.maxPoint then
    String.ofList (s.toList.take p.toNat) ++ "." ++ String.ofList (s.toList.drop p.toNat)
  else if doubleLayout.minPoint < p && p ≤ 0 then "0." ++ zeros (-p).toNat ++ s
  else
    let mark := "e" ++ (if doubleLayout.plusSign && 0 < p - 1 then "+" else "") ++ toString (p - 1)
    if n = 1 then s ++ mark
    else String.ofList (s.toList.take 1) ++ "." ++ String.ofList (s.toList.drop 1) ++ mark

/-- The text of a double: the sign, then `0.0` for a zero or the shortest digits that read
back, laid out by `doubleLayout`. A value with no JSON form (infinite or NaN) is `null`. -/
def doubleText (x : Float) : String :=
  match Double.parts x with
  | none => "null"
  | some p =>
    let sign := if p.negative then "-" else ""
    if p.mantissa = 0 then sign ++ "0.0" else sign ++ decimalText (Shortest.digits p)

/-! ## Values -/

/-- The text of a scalar value; a part without a value is written as `null`. -/
def scalarText : Json → String
  | .null => "null"
  | .unreadable => "null"
  | .bool true => "true"
  | .bool false => "false"
  | .int n => toString n
  | .float x => doubleText x
  | .str s => quote s
  | .arr _ => "[]"
  | .obj _ => "\x7b\x7d"

mutual
/-- The value written with no blanks. -/
def compact : Json → String
  | .arr items => "[" ++ ",".intercalate (compactItems items) ++ "]"
  | .obj members => "\x7b" ++ ",".intercalate (compactMembers members) ++ "\x7d"
  | v => scalarText v

/-- `compact` on each item. -/
def compactItems : List Json → List String
  | [] => []
  | v :: rest => compact v :: compactItems rest

/-- Each member as `"key":value`. -/
def compactMembers : List (String × Json) → List String
  | [] => []
  | (k, v) :: rest => (quote k ++ ":" ++ compact v) :: compactMembers rest
end

/-- The indent of a line at a given depth. -/
def indent (depth : Nat) : String :=
  String.ofList (List.replicate (2 * depth) ' ')

mutual
/-- The value written one item per line, its inner lines indented for `depth + 1`. -/
def prettyAt (depth : Nat) : Json → String
  | .arr [] => "[]"
  | .obj [] => "\x7b\x7d"
  | .arr items =>
    "[\n" ++ ",\n".intercalate (prettyItems (depth + 1) items) ++ "\n" ++ indent depth ++ "]"
  | .obj members =>
    "\x7b\n" ++ ",\n".intercalate (prettyMembers (depth + 1) members) ++ "\n" ++ indent depth ++ "\x7d"
  | v => scalarText v

/-- Each item on its own line at `depth`. -/
def prettyItems (depth : Nat) : List Json → List String
  | [] => []
  | v :: rest => (indent depth ++ prettyAt depth v) :: prettyItems depth rest

/-- Each member on its own line at `depth`, as `"key": value`. -/
def prettyMembers (depth : Nat) : List (String × Json) → List String
  | [] => []
  | (k, v) :: rest => (indent depth ++ quote k ++ ": " ++ prettyAt depth v) :: prettyMembers depth rest
end

/-- The value written one item per line with two spaces of indent per level. -/
def pretty (v : Json) : String :=
  prettyAt 0 v

end SurveyBranching.Json
