import SurveyBranching.Expr.Token
/-!
# Splitting an expression into words

Scanning skips any run of space, tab, carriage return and line feed, then takes the longest
word that starts at that point. Words need no blank between them: `andor` is `and` then `or`,
and `val1eq` is `val1` then `eq`.

The first place where no word starts ends the scan with `ParseError.invalidToken`. The text
shown is one character, with two exceptions: a subject whose number does not fit in 32 bits
shows the whole subject, and an unclosed quote shows the quote and what followed it, up to
the end or up to a backslash that stands before a line feed or at the end.

## Main definitions

* `Token.munch`: the longest word at the start of a text.
* `Token.scan`: all words of a text, with their spans.
-/

namespace SurveyBranching.Token

/-- The characters skipped between words. -/
def isGap (c : Char) : Bool :=
  c == ' ' || c == '\t' || c == '\r' || c == '\n'

/-- The number of UTF-8 bytes of some characters. -/
def byteLength (cs : List Char) : Nat :=
  cs.foldr (fun c n => c.utf8Size + n) 0

/-- The keywords with their words. -/
def keywords : List (List Char × Token) :=
  [("and".toList, .clause .and), ("or".toList, .clause .or),
   ("gt".toList, .relation .gt), ("gte".toList, .relation .gte),
   ("lt".toList, .relation .lt), ("lte".toList, .relation .lte),
   ("eq".toList, .relation .eq), ("neq".toList, .relation .neq),
   ("contains".toList, .relation .contains), ("notcontains".toList, .relation .notContains)]

/-- The longest keyword at the start of a text, with its length. -/
def keywordAt (cs : List Char) : Option (Token × Nat) :=
  keywords.foldl (fun best (w, t) =>
    if w.isPrefixOf cs && best.all (·.2 < w.length) then some (t, w.length) else best) none

/-- The number a run of decimal digits stands for. -/
def digitsValue (ds : List Char) : Nat :=
  ds.foldl (fun n d => n * 10 + (d.toNat - '0'.toNat)) 0

/-- What the longest word at the start of a text is. -/
inductive Munch where
  /-- A word of this many characters. -/
  | word (t : Token) (length : Nat)
  /-- A subject of this many characters whose number does not fit in 32 bits. -/
  | oversized (length : Nat)
  /-- A quote that is never closed; this many characters were read before the text gave
  out. -/
  | unclosed (length : Nat)

/-- The subject at the start of a text: `val` or `cnt` and at least one digit. -/
def subjectAt (cs : List Char) : Option Munch :=
  let digitsAfter (rest : List Char) (mk : UInt32 → Subject) : Option Munch :=
    let ds := rest.takeWhile Char.isDigit
    if ds.isEmpty then none
    else if digitsValue ds < 4294967296 then
      some (.word (.subject (mk (UInt32.ofNat (digitsValue ds)))) (3 + ds.length))
    else some (.oversized (3 + ds.length))
  match cs with
  | 'v' :: 'a' :: 'l' :: rest => digitsAfter rest .value
  | 'c' :: 'n' :: 't' :: rest => digitsAfter rest .count
  | _ => none

/-- How far a quoted text runs, given the characters after the opening quote and the number
read so far: `some n` when it closes after `n` characters in all, `none` with the count of
characters read when it does not close. -/
def textSpan : List Char → Nat → Except Nat Nat
  | [], n => .error n
  | '"' :: _, n => .ok (n + 1)
  | '\\' :: c :: rest, n => if c == '\n' then .error n else textSpan rest (n + 2)
  | '\\' :: [], n => .error n
  | _ :: rest, n => textSpan rest (n + 1)

/-- A number at the start of a text: an optional minus and digits, then, for a decimal, a
point and digits. -/
def numberAt (cs : List Char) : Option Munch :=
  let sign := if cs.head? == some '-' then 1 else 0
  let rest := cs.drop sign
  let whole := (rest.takeWhile Char.isDigit).length
  if whole = 0 then none
  else
    match rest.drop whole with
    | '.' :: after =>
      let frac := (after.takeWhile Char.isDigit).length
      if frac = 0 then some (.word (.integer (String.ofList (cs.take (sign + whole)))) (sign + whole))
      else
        let n := sign + whole + 1 + frac
        some (.word (.decimal (String.ofList (cs.take n))) n)
    | _ => some (.word (.integer (String.ofList (cs.take (sign + whole)))) (sign + whole))

/-- The longest word at the start of a text. The kinds of word start with different
characters, except the keywords among themselves, so the longest is found kind by kind. -/
def munch (cs : List Char) : Option Munch :=
  match cs with
  | '"' :: rest =>
    match textSpan rest 1 with
    | .ok n => some (.word (.text (String.ofList (cs.take n))) n)
    | .error n => some (.unclosed n)
  | _ =>
    match keywordAt cs with
    | some (t, n) => some (.word t n)
    | none =>
      match subjectAt cs with
      | some m => some m
      | none => numberAt cs

/-- The words of a text from byte offset `pos` on, after those already found (last first). -/
def scanFrom (pos : Nat) (acc : List Spanned) (cs : List Char) :
    Except ParseError (List Spanned) :=
  let gap := (cs.takeWhile isGap).length
  let start := pos + gap
  match _h : cs.drop gap with
  | [] => .ok acc.reverse
  | c :: tail =>
    match munch (c :: tail) with
    | some (.word t n) =>
      if _hn : 0 < n then
        let stop := start + byteLength ((c :: tail).take n)
        scanFrom stop (⟨t, start, stop⟩ :: acc) ((c :: tail).drop n)
      else .error (.invalidToken (String.singleton c) start)
    | some (.oversized n) | some (.unclosed n) =>
      .error (.invalidToken (String.ofList ((c :: tail).take n)) start)
    | none => .error (.invalidToken (String.singleton c) start)
termination_by cs.length
decreasing_by
  have hlen : (cs.drop gap).length ≤ cs.length := by simp
  rw [_h] at hlen
  simp only [List.length_drop, List.length_cons] at hlen ⊢
  omega

/-- The words of an expression with their byte spans, or the first place where no word
starts. -/
def scan (input : String) : Except ParseError (List Spanned) :=
  scanFrom 0 [] input.toList

end SurveyBranching.Token
