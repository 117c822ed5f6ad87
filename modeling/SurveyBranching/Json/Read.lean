import SurveyBranching.Json.Basic
import SurveyBranching.Number.Double
/-!
# Reading JSON text

Reading goes in two passes, each a structural recursion. The scanner feeds one character at
a time to a small machine and emits lexemes: punctuation, strings with their escapes
resolved, numbers and the three words. The builder then takes one lexeme at a time and
keeps the containers still open as a stack of frames, so nesting depth never turns into
recursion depth; the number of open containers is bounded by a limit.

The form is always checked: no leading zeros, no trailing commas, no raw control characters
in strings, no escapes but the JSON ones, nothing but blanks after the value. A strict read
also refuses what is well formed but has no value (a lone surrogate escape, a number out of
range) and more open containers than a limit; a lenient read keeps such a part as
`unreadable`, for a reader that may never look at it, and does not limit nesting.

Numbers follow a fast decimal rule rather than exact rounding. An integer literal is kept
exactly when it fits in 64 bits (an unsigned one up to `2^64 - 1`, a negative one down to
`-2^63`); `-0` becomes the double minus zero. Otherwise up to nineteen or twenty leading
digits are gathered into a 64-bit significand, the rest only move the decimal exponent, and
the double is the significand, converted, then multiplied or divided once by the power of
ten, itself the nearest double to that power. A result that overflows is refused.

## Main definitions

* `Json.Lexeme`, `Json.scan`: the first pass.
* `Json.numberValue`: the value of a number's text.
* `Json.build`: the second pass.
* `Json.parse`: text to value, strictly, with a limit on open containers.
* `Json.parseLenient`: text to value, keeping the parts without a value as `unreadable`.
-/

namespace SurveyBranching.Json

/-- A unit of JSON text. -/
inductive Lexeme where
  | openBrace
  | closeBrace
  | openBracket
  | closeBracket
  | colon
  | comma
  | str (s : String)
  /-- A string with an unpaired surrogate escape. -/
  | flawedStr
  | scalar (v : Json)

/-! ## Numbers -/

/-- The largest unsigned 64-bit integer. -/
def u64Max : Nat := 18446744073709551615

/-- Whether appending the digit `d` to the significand `s` would pass `u64Max`. -/
def overflowsU64 (s d : Nat) : Bool :=
  s ≥ u64Max / 10 && (s > u64Max / 10 || d > u64Max % 10)

/-- Whether appending the digit `d` to the exponent `e` would pass the largest signed
32-bit integer. -/
def overflowsI32 (e d : Nat) : Bool :=
  e ≥ 2147483647 / 10 && (e > 2147483647 / 10 || d > 2147483647 % 10)

/-- The double nearest to `10^k`. -/
def pow10 (k : Nat) : Float :=
  Double.nearest (Nat.pow 10 k) 1

/-- Scales a double by `10^e` the fast way: one multiplication or division by a power of ten
from the table `10^0 … 10^308`; exponents below the table divide by `10^308` first. Fails
when the result overflows or the exponent is above the table. -/
def scaleByPow10 (f : Float) (e : Int) : Option Float :=
  if e.natAbs ≤ 308 then
    if e ≥ 0 then
      let g := f * pow10 e.toNat
      if g.isInf then none else some g
    else some (f / pow10 e.natAbs)
  else if f == 0 then some f
  else if e ≥ 0 then none
  else scaleByPow10 (f / pow10 308) (e + 308)
termination_by e.natAbs
decreasing_by omega

/-- The significand and decimal exponent gathered from the integer digits: digits go into
the significand until one more would pass `u64Max`; from then on each digit, that one
included, only raises the exponent. The flag tells whether that happened. -/
def gatherInteger (ds : List Nat) : Nat × Int × Bool :=
  ds.foldl (fun (s, e, long) d =>
    if long then (s, e + 1, true)
    else if overflowsU64 s d then (s, e + 1, true)
    else (s * 10 + d, e, false)) (0, 0, false)

/-- The fraction digits join the significand, each lowering the exponent, until one would
pass `u64Max`; that digit and all after it are dropped. -/
def gatherFraction (start : Nat × Int) (ds : List Nat) : Nat × Int :=
  let r := ds.foldl (fun (s, e, stop) d =>
    if stop then (s, e, true)
    else if overflowsU64 s d then (s, e, true)
    else (s * 10 + d, e - 1, false)) (start.1, start.2, false)
  (r.1, r.2.1)

/-- The exponent digits as a 32-bit value, or `none` once they pass its range. -/
def gatherExponent (ds : List Nat) : Option Nat :=
  ds.foldl (fun acc d => acc.bind fun e => if overflowsI32 e d then none else some (e * 10 + d))
    (some 0)

/-- Clamps to the signed 32-bit range. -/
def clampI32 (e : Int) : Int :=
  max (-2147483648) (min 2147483647 e)

/-- A digit character's value. -/
def digitValue (c : Char) : Nat :=
  c.toNat - '0'.toNat

/-- The parts of a number's text: sign, integer digits, fraction digits (if a point is
there), and exponent sign and digits (if an exponent is there). -/
structure NumberText where
  negative : Bool
  integer : List Nat
  fraction : Option (List Nat)
  exponent : Option (Bool × List Nat)

/-- Splits a number's text by the JSON grammar: an optional minus, `0` or a digit string
not starting with `0`, then optionally a point and at least one digit, then optionally
`e` or `E`, a sign, and at least one digit. -/
def NumberText.ofChars (cs : List Char) : Option NumberText :=
  let (negative, cs) := match cs with
    | '-' :: rest => (true, rest)
    | _ => (false, cs)
  let intPart := cs.takeWhile Char.isDigit
  let cs := cs.dropWhile Char.isDigit
  if intPart.isEmpty || (intPart.length > 1 && intPart.head? == some '0') then none
  else
    let (fraction, cs) : Option (Option (List Char)) × List Char := match cs with
      | '.' :: rest =>
        let ds := rest.takeWhile Char.isDigit
        if ds.isEmpty then (none, rest) else (some (some ds), rest.dropWhile Char.isDigit)
      | _ => (some none, cs)
    match fraction with
    | none => none
    | some fraction =>
      let exponent : Option (Option (Bool × List Char)) := match cs with
        | [] => some none
        | e :: rest =>
          if e == 'e' || e == 'E' then
            let (positive, rest) := match rest with
              | '+' :: r => (true, r)
              | '-' :: r => (false, r)
              | r => (true, r)
            if !rest.isEmpty && rest.all Char.isDigit then some (some (positive, rest)) else none
          else none
      match exponent with
      | none => none
      | some exponent =>
        some ⟨negative, intPart.map digitValue, fraction.map (·.map digitValue),
          exponent.map fun (p, ds) => (p, ds.map digitValue)⟩

/-- The value of a number's text, or `none` when it is malformed or out of range. -/
def numberValue (cs : List Char) : Option Json := do
  let t ← NumberText.ofChars cs
  let (s, e, long) := gatherInteger t.integer
  let sign (f : Float) : Float := if t.negative then -f else f
  match t.fraction, t.exponent with
  | none, none =>
    if long then
      (scaleByPow10 (Double.ofNat s) e).map (fun f => .float (sign f))
    else if !t.negative then some (.int s)
    else if s = 0 then some (.float Double.negZero)
    else if s ≤ 9223372036854775808 then some (.int (-(s : Int)))
    else some (.float (sign (Double.ofNat s)))
  | fraction, exponent =>
    let (s, e) := match fraction with
      | some ds => gatherFraction (s, e) ds
      | none => (s, e)
    match exponent with
    | none => (scaleByPow10 (Double.ofNat s) e).map (fun f => .float (sign f))
    | some (positive, ds) =>
      match gatherExponent ds with
      | none =>
        -- An exponent past the 32-bit range: zero, unless a nonzero value would grow.
        if s ≠ 0 && positive then none else some (.float (sign 0))
      | some x =>
        let e := clampI32 (if positive then e + x else e - x)
        (scaleByPow10 (Double.ofNat s) e).map (fun f => .float (sign f))

/-- The value of a well-formed number's text; out of range, it is `unreadable` when read
leniently and refused when read strictly. -/
def numberLexeme (lenient : Bool) (cs : List Char) : Option Json :=
  match numberValue cs with
  | some v => some v
  | none => if lenient && (NumberText.ofChars cs).isSome then some .unreadable else none

/-! ## The scanner -/

/-- Where the scanner stands between two characters. -/
inductive Scan where
  /-- Between lexemes. -/
  | between
  /-- Inside a string; the characters so far, last first. -/
  | text (acc : List Char)
  /-- Right after a backslash in a string. -/
  | escape (acc : List Char)
  /-- Reading the four hex digits of a `\u` escape: the leading surrogate it completes, if
  any, the value so far and how many digits were read. -/
  | hex (acc : List Char) (high : Option Nat) (value : Nat) (count : Nat)
  /-- After a leading surrogate: a backslash must follow. -/
  | lowSlash (acc : List Char) (high : Nat)
  /-- After a leading surrogate and a backslash: a `u` must follow. -/
  | lowU (acc : List Char) (high : Nat)
  /-- Inside a string that has an unpaired surrogate escape: only its form is still read. -/
  | flawed
  /-- Right after a backslash in such a string. -/
  | flawedEscape
  /-- Reading the hex digits of a `\u` escape in such a string: how many are left. -/
  | flawedHex (left : Nat)
  /-- Inside a number; its characters so far, last first. -/
  | number (acc : List Char)
  /-- Inside `true`, `false` or `null`: the letters still expected and the value. -/
  | word (rest : List Char) (value : Json)

/-- The value of a hex digit. -/
def hexValue (c : Char) : Option Nat :=
  if '0' ≤ c && c ≤ '9' then some (c.toNat - '0'.toNat)
  else if 'a' ≤ c && c ≤ 'f' then some (c.toNat - 'a'.toNat + 10)
  else if 'A' ≤ c && c ≤ 'F' then some (c.toNat - 'A'.toNat + 10)
  else none

/-- JSON's four blank characters. -/
def isJsonBlank (c : Char) : Bool :=
  c == ' ' || c == '\t' || c == '\n' || c == '\r'

/-- A character that can continue a number's text. -/
def isNumberChar (c : Char) : Bool :=
  c.isDigit || c == '-' || c == '+' || c == '.' || c == 'e' || c == 'E'

/-- One character read between lexemes. -/
def feedBetween (c : Char) : Option (Scan × List Lexeme) :=
  if isJsonBlank c then some (.between, [])
  else match c with
    | '{' => some (.between, [.openBrace])
    | '}' => some (.between, [.closeBrace])
    | '[' => some (.between, [.openBracket])
    | ']' => some (.between, [.closeBracket])
    | ':' => some (.between, [.colon])
    | ',' => some (.between, [.comma])
    | '"' => some (.text [], [])
    | 't' => some (.word ['r', 'u', 'e'] (.bool true), [])
    | 'f' => some (.word ['a', 'l', 's', 'e'] (.bool false), [])
    | 'n' => some (.word ['u', 'l', 'l'] .null, [])
    | _ => if c.isDigit || c == '-' then some (.number [c], []) else none

/-- The next character of a string that has an unpaired surrogate escape. -/
def feedFlawed (c : Char) : Option Scan :=
  if c == '"' then none
  else if c == '\\' then some .flawedEscape
  else if c.toNat < 0x20 then none
  else some .flawed

/-- The character after a backslash in a string that has an unpaired surrogate escape. -/
def feedFlawedEscape (c : Char) : Option Scan :=
  match c with
  | '"' | '\\' | '/' | 'b' | 'f' | 'n' | 'r' | 't' => some .flawed
  | 'u' => some (.flawedHex 4)
  | _ => none

/-- The character a `\u` escape stands for, once its four digits are read; `none` when the
escape leaves a surrogate unpaired. -/
def afterHex (acc : List Char) (high : Option Nat) (v : Nat) : Option Scan :=
  match high with
  | none =>
    if 0xD800 ≤ v && v ≤ 0xDBFF then some (.lowSlash acc v)
    else if 0xDC00 ≤ v && v ≤ 0xDFFF then none
    else some (.text (Char.ofNat v :: acc))
  | some h =>
    if 0xDC00 ≤ v && v ≤ 0xDFFF then
      some (.text (Char.ofNat (0x10000 + (h - 0xD800) * 0x400 + (v - 0xDC00)) :: acc))
    else none

/-- One character fed to the scanner, strictly or leniently: the next state and the lexemes
completed. -/
def feed (lenient : Bool) : Scan → Char → Option (Scan × List Lexeme)
  | .between, c => feedBetween c
  | .text acc, c =>
    if c == '"' then some (.between, [.str (String.ofList acc.reverse)])
    else if c == '\\' then some (.escape acc, [])
    else if c.toNat < 0x20 then none
    else some (.text (c :: acc), [])
  | .escape acc, c =>
    match c with
    | '"' => some (.text ('"' :: acc), [])
    | '\\' => some (.text ('\\' :: acc), [])
    | '/' => some (.text ('/' :: acc), [])
    | 'b' => some (.text ('\x08' :: acc), [])
    | 'f' => some (.text ('\x0c' :: acc), [])
    | 'n' => some (.text ('\n' :: acc), [])
    | 'r' => some (.text ('\r' :: acc), [])
    | 't' => some (.text ('\t' :: acc), [])
    | 'u' => some (.hex acc none 0 0, [])
    | _ => none
  | .hex acc high v n, c => do
    let d ← hexValue c
    if n + 1 < 4 then some (.hex acc high (v * 16 + d) (n + 1), [])
    else
      match afterHex acc high (v * 16 + d) with
      | some s => some (s, [])
      | none => if lenient then some (.flawed, []) else none
  | .lowSlash acc h, c =>
    if c == '\\' then some (.lowU acc h, [])
    else if !lenient then none
    else if c == '"' then some (.between, [.flawedStr])
    else (feedFlawed c).map (·, [])
  | .lowU acc h, c =>
    if c == 'u' then some (.hex acc (some h) 0 0, [])
    else if lenient then (feedFlawedEscape c).map (·, [])
    else none
  | .flawed, c => if c == '"' then some (.between, [.flawedStr]) else (feedFlawed c).map (·, [])
  | .flawedEscape, c => (feedFlawedEscape c).map (·, [])
  | .flawedHex left, c => do
    let _ ← hexValue c
    if left ≤ 1 then some (.flawed, []) else some (.flawedHex (left - 1), [])
  | .number acc, c =>
    if isNumberChar c then some (.number (c :: acc), [])
    else do
      let v ← numberLexeme lenient acc.reverse
      let (s, ls) ← feedBetween c
      some (s, .scalar v :: ls)
  | .word [] _, _ => none
  | .word (x :: xs) v, c =>
    if c != x then none
    else if xs.isEmpty then some (.between, [.scalar v])
    else some (.word xs v, [])

/-- The lexemes of a text, collected last first, from a given scanner state. -/
def scanFrom (lenient : Bool) : Scan → List Lexeme → List Char → Option (List Lexeme)
  | .between, out, [] => some out
  | .number acc, out, [] => (numberLexeme lenient acc.reverse).map fun v => .scalar v :: out
  | _, _, [] => none
  | s, out, c :: cs =>
    match feed lenient s c with
    | none => none
    | some (s', ls) => scanFrom lenient s' (ls.reverse ++ out) cs

/-- The lexemes of a text, in order; `none` when some character cannot be read. -/
def scan (lenient : Bool) (text : String) : Option (List Lexeme) :=
  (scanFrom lenient .between [] text.toList).map List.reverse

/-! ## The builder -/

/-- A container still open. -/
inductive Frame where
  /-- An array and its items so far, last first. -/
  | array (items : List Json)
  /-- An object and its members so far, last first. -/
  | object (members : List (String × Json))
  /-- An object with a key that has no value: it will be `unreadable`, so its members are
  not kept. -/
  | flawedObject
  /-- The key of the member whose value is being read. -/
  | member (key : String)

/-- What the builder expects next. -/
inductive Expect where
  | value
  | valueOrClose
  | key
  | keyOrClose
  | colon (key : String)
  | next

/-- The number of containers open. -/
def openCount (stack : List Frame) : Nat :=
  stack.countP fun
    | .member _ => false
    | _ => true

/-- Places a finished value: at the top level it is the result (`inl`); otherwise it joins the
innermost container (`inr` with the new stack). -/
def place (v : Json) : List Frame → Option (Json ⊕ List Frame)
  | [] => some (.inl v)
  | .array items :: st => some (.inr (.array (v :: items) :: st))
  | .member k :: .object ms :: st => some (.inr (.object ((k, v) :: ms) :: st))
  | .member _ :: .flawedObject :: st => some (.inr (.flawedObject :: st))
  | _ => none

/-- The stack once the innermost object has met a key without a value. -/
def flawKey : List Frame → List Frame
  | .object _ :: st => .flawedObject :: st
  | st => st

/-- What one lexeme does to the builder: it opens or continues a container (`shift`, with
the new stack and expectation) or completes a value (`complete`, with the stack it joins). -/
inductive Move where
  | shift (stack : List Frame) (expect : Expect)
  | complete (v : Json) (stack : List Frame)

/-- A lexeme where a value must start. -/
def startValue (limit : Nat) (l : Lexeme) (stack : List Frame) : Option Move :=
  match l with
  | .scalar v => some (.complete v stack)
  | .str s => some (.complete (.str s) stack)
  | .flawedStr => some (.complete .unreadable stack)
  | .openBracket =>
    if openCount stack + 1 > limit then none else some (.shift (.array [] :: stack) .valueOrClose)
  | .openBrace =>
    if openCount stack + 1 > limit then none else some (.shift (.object [] :: stack) .keyOrClose)
  | _ => none

/-- The builder's move on one lexeme; at most `limit` containers may be open at once. -/
def move (limit : Nat) (l : Lexeme) (stack : List Frame) : Expect → Option Move
  | .value => startValue limit l stack
  | .valueOrClose =>
    match l, stack with
    | .closeBracket, .array [] :: st => some (.complete (.arr []) st)
    | _, _ => startValue limit l stack
  | .keyOrClose =>
    match l, stack with
    | .closeBrace, .object [] :: st => some (.complete (.obj []) st)
    | .str k, _ => some (.shift stack (.colon k))
    | .flawedStr, _ => some (.shift (flawKey stack) (.colon ""))
    | _, _ => none
  | .key =>
    match l with
    | .str k => some (.shift stack (.colon k))
    | .flawedStr => some (.shift (flawKey stack) (.colon ""))
    | _ => none
  | .colon k =>
    match l with
    | .colon => some (.shift (.member k :: stack) .value)
    | _ => none
  | .next =>
    match l, stack with
    | .comma, .array _ :: _ => some (.shift stack .value)
    | .closeBracket, .array items :: st => some (.complete (.arr items.reverse) st)
    | .comma, .object _ :: _ => some (.shift stack .key)
    | .closeBrace, .object ms :: st => some (.complete (.obj ms.reverse) st)
    | .comma, .flawedObject :: _ => some (.shift stack .key)
    | .closeBrace, .flawedObject :: st => some (.complete .unreadable st)
    | _, _ => none

/-- The value of a lexeme sequence, given the open containers and what is expected. A value
completed with no container open must end the sequence. -/
def build (limit : Nat) : List Lexeme → List Frame → Expect → Option Json
  | [], _, _ => none
  | l :: rest, stack, expect =>
    match move limit l stack expect with
    | none => none
    | some (.shift st e) => build limit rest st e
    | some (.complete v st) =>
      match place v st with
      | some (.inl v) => if rest.isEmpty then some v else none
      | some (.inr st) => build limit rest st .next
      | none => none

/-- The value of a JSON text with at most `limit` containers open at once, or `none` when the
text is not JSON or some part of it has no value. -/
def parse (text : String) (limit : Nat) : Option Json := do
  let ls ← scan false text
  build limit ls [] .value

/-- The value of a well-formed JSON text, its parts without a value kept as `unreadable`;
nesting is bounded only by the text itself. -/
def parseLenient (text : String) : Option Json := do
  let ls ← scan true text
  build (text.length + 1) ls [] .value

end SurveyBranching.Json
