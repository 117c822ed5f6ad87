import SurveyBranching.Limits
/-!
# Limits from a TOML document

A limits file is a TOML document whose top level sets `max_reduction_iterations`,
`max_expression_depth`, or both, to integers from `0` to `2^64 - 1`; a key left out keeps its
default. Anything else a TOML document can hold (other keys, tables, values of other types)
is refused, as are a key set twice and text that is not TOML at all.

So a document is read line by line, and each line is blank, a comment, or `key = integer`,
possibly with blanks around and a comment after. A key is bare (letters, digits, `_`, `-`)
or quoted as a basic (`"…"`, with escapes) or literal (`'…'`) string. An integer is
decimal with an optional sign, or `0x`, `0o`, `0b` and digits of that base; an underscore may
stand between two digits, and a decimal integer has no leading zero.

## Main definitions

* `Toml.integer?`: the value of an integer's text.
* `Toml.entry?`: the key and integer of one line, if it sets one.
* `Limits.ofToml?`: the limits a document sets.
-/

namespace SurveyBranching.Toml

/-- A blank inside a line: space or tab. -/
def isSpace (c : Char) : Bool :=
  c == ' ' || c == '\t'

/-- A character a comment may hold: anything but a control character, tab apart. -/
def isCommentChar (c : Char) : Bool :=
  c == '\t' || (c.toNat ≥ 0x20 && c.toNat != 0x7F)

/-- A character of a bare key. -/
def isBareKeyChar (c : Char) : Bool :=
  c.isAlphanum || c == '_' || c == '-'

/-- The value of a digit in a base up to sixteen. -/
def digitIn (base : Nat) (c : Char) : Option Nat :=
  let v :=
    if c.isDigit then some (c.toNat - '0'.toNat)
    else if 'a' ≤ c && c ≤ 'f' then some (c.toNat - 'a'.toNat + 10)
    else if 'A' ≤ c && c ≤ 'F' then some (c.toNat - 'A'.toNat + 10)
    else none
  v.filter (· < base)

/-- The value of digits of a base with single underscores between digits. -/
def digitsIn (base : Nat) (cs : List Char) : Option Nat :=
  if cs.head? == some '_' || cs.getLast? == some '_' || cs.isEmpty then none
  else
    -- No two underscores side by side.
    if (cs.zip cs.tail).any (fun p => p.1 == '_' && p.2 == '_') then none
    else (cs.filter (· != '_')).foldlM (fun n c => (digitIn base c).map (n * base + ·)) 0

/-- The value of an integer's text. -/
def integer? (cs : List Char) : Option Int :=
  match cs with
  | '0' :: 'x' :: ds => (digitsIn 16 ds).map Int.ofNat
  | '0' :: 'o' :: ds => (digitsIn 8 ds).map Int.ofNat
  | '0' :: 'b' :: ds => (digitsIn 2 ds).map Int.ofNat
  | _ =>
    let (negative, ds) := match cs with
      | '-' :: ds => (true, ds)
      | '+' :: ds => (false, ds)
      | ds => (false, ds)
    if ds.length > 1 && ds.head? == some '0' then none
    else (digitsIn 10 ds).map fun n => if negative then -(n : Int) else n

/-- The characters of a basic string's escape, after the backslash. -/
def escapeOf (c : Char) : Option Char :=
  match c with
  | 'b' => some '\x08'
  | 't' => some '\t'
  | 'n' => some '\n'
  | 'f' => some '\x0c'
  | 'r' => some '\r'
  | 'e' => some '\x1b'
  | '"' => some '"'
  | '\\' => some '\\'
  | _ => none

/-- A basic string's content up to its closing quote, and what follows the quote. -/
def basicString : List Char → List Char → Option (String × List Char)
  | [], _ => none
  | '"' :: rest, acc => some (String.ofList acc.reverse, rest)
  | '\\' :: 'x' :: a :: b :: rest, acc => do
    let n ← digitsIn 16 [a, b]
    basicString rest (Char.ofNat n :: acc)
  | '\\' :: 'u' :: a :: b :: c :: d :: rest, acc => do
    let n ← digitsIn 16 [a, b, c, d]
    if n ≥ 0xD800 && n ≤ 0xDFFF then none else basicString rest (Char.ofNat n :: acc)
  | '\\' :: 'U' :: a :: b :: c :: d :: e :: f :: g :: h :: rest, acc => do
    let n ← digitsIn 16 [a, b, c, d, e, f, g, h]
    if (n ≥ 0xD800 && n ≤ 0xDFFF) || n > 0x10FFFF then none else basicString rest (Char.ofNat n :: acc)
  | '\\' :: c :: rest, acc => do
    let e ← escapeOf c
    basicString rest (e :: acc)
  | c :: rest, acc => if isCommentChar c then basicString rest (c :: acc) else none

/-- The single quote that delimits a literal string. -/
def singleQuote : Char := Char.ofNat 39

/-- A literal string's content up to its closing quote, and what follows the quote. -/
def literalString (rest : List Char) : Option (String × List Char) :=
  let body := rest.takeWhile (· != singleQuote)
  match rest.dropWhile (· != singleQuote) with
  | _ :: after => if body.all isCommentChar then some (String.ofList body, after) else none
  | [] => none

/-- A key at the start of a line's text, and what follows it. -/
def key? (cs : List Char) : Option (String × List Char) :=
  match cs with
  | '"' :: rest => basicString rest []
  | c :: rest =>
    if c == singleQuote then literalString rest
    else
      let body := cs.takeWhile isBareKeyChar
      if body.isEmpty then none else some (String.ofList body, cs.dropWhile isBareKeyChar)
  | [] => none

/-- Whether the rest of a line is blanks and perhaps a comment. -/
def endsLine (cs : List Char) : Bool :=
  match cs.dropWhile isSpace with
  | [] => true
  | '#' :: comment => comment.all isCommentChar
  | _ => false

/-- What one line holds: nothing (`some none`), a key set to an integer, or something that
cannot be in a limits file (`none`). -/
def entry? (line : List Char) : Option (Option (String × Int)) :=
  let cs := line.dropWhile isSpace
  if endsLine cs then some none
  else do
    let (k, rest) ← key? cs
    match rest.dropWhile isSpace with
    | '=' :: rest =>
      let rest := rest.dropWhile isSpace
      let valueText := rest.takeWhile fun c => !(isSpace c || c == '#')
      let n ← integer? valueText
      if endsLine (rest.drop valueText.length) then some (some (k, n)) else none
    | _ => none

/-- The lines of a document: split at line feeds, a carriage return allowed only just
before one, so never at the end of the document. A byte order mark may open the document. -/
def lines? (text : String) : Option (List (List Char)) :=
  let cs := match text.toList with
    | '\uFEFF' :: cs => cs
    | cs => cs
  let ls := cs.splitOn '\n'
  -- Every line but the last ended at a line feed, which its carriage return may precede.
  let closed := ls.dropLast.map fun l => if l.getLast? == some '\r' then l.dropLast else l
  (closed ++ [ls.getLastD []]).mapM fun l => if l.contains '\r' then none else some l

end Toml

/-- The limits a TOML document sets, or `none` when it is not such a document. -/
def Limits.ofToml? (text : String) : Option Limits := do
  let ls ← Toml.lines? text
  let entries := (← ls.mapM Toml.entry?).filterMap id
  let keys := entries.map (·.1)
  if !keys.all (fun k => k == "max_reduction_iterations" || k == "max_expression_depth") then none
  else if keys.length != keys.eraseDups.length then none
  else
    let value (k : String) (d : Nat) : Option Nat :=
      match entries.lookup k with
      | none => some d
      | some n => if 0 ≤ n ∧ n < 18446744073709551616 then some n.toNat else none
    pure ⟨← value "max_reduction_iterations" 50, ← value "max_expression_depth" 1024⟩

end SurveyBranching
