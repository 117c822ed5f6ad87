/-!
# Fresh ids

New conditions, rules and sections need ids. They come from an id supply: a generator's state
and the function that hands out the next id and the state after it. Everything said about
fresh ids holds of every supply; two are given here, a stem followed by a counter (`c1`,
`c2`, …), and random version 4 UUIDs, for ids that must not clash with any written by hand.

## Main definitions

* `IdSupply`, `IdSupply.draw`, `IdSupply.drawMany`.
* `IdSupply.Counter`, `IdSupply.sequential`, `IdSupply.uuid`.
-/

namespace SurveyBranching

/-- A supply of fresh ids: a generator's state, and the function that gives the next id and the
state after it. Nothing is assumed of the ids it gives; a supply may even repeat one. -/
structure IdSupply (σ : Type) where
  /-- The generator's current state. -/
  state : σ
  /-- The next id from a state, and the state after it. -/
  nextId : σ → String × σ

namespace IdSupply

section Draw

variable {σ : Type}

/-- The next id, and the supply after it. -/
def draw (s : IdSupply σ) : String × IdSupply σ :=
  let (id, g) := s.nextId s.state
  (id, ⟨g, s.nextId⟩)

/-- The next `k` ids, in order, and the supply after them. -/
def drawMany (s : IdSupply σ) : Nat → List String × IdSupply σ
  | 0 => ([], s)
  | k + 1 =>
    let (id, s') := s.draw
    let (ids, s'') := drawMany s' k
    (id :: ids, s'')

end Draw

/-! ## Counters -/

/-- A counter behind a stem; its ids are the stem followed by the counter in decimal. -/
structure Counter where
  stem : String
  next : Nat := 1
deriving DecidableEq, Repr

/-- The counter's id, and the counter moved on by one. -/
def Counter.nextId (c : Counter) : String × Counter :=
  (c.stem ++ toString c.next, { c with next := c.next + 1 })

/-- The supply of a counter. -/
def ofCounter (c : Counter) : IdSupply Counter :=
  ⟨c, Counter.nextId⟩

/-- A supply of `stem ++ "1"`, `stem ++ "2"`, and so on. -/
def sequential (stem : String) : IdSupply Counter :=
  ofCounter ⟨stem, 1⟩

/-! ## Random UUIDs -/

/-- `n` as lower-case hex digits, padded with zeros to `width`. -/
def hexDigits (width n : Nat) : String :=
  let ds := Nat.toDigits 16 n
  String.ofList (List.replicate (width - ds.length) '0' ++ ds)

/-- The version 4 UUID of 122 random bits: the bits in the five groups of hex digits, with the
version digit `4` before the third group's last twelve bits and the variant bits `10` before
the fourth group's last fourteen. -/
def uuidOfBits (r : Nat) : String :=
  hexDigits 8 ((r >>> 90) % 0x100000000) ++ "-" ++ hexDigits 4 ((r >>> 74) % 0x10000) ++ "-4" ++
    hexDigits 3 ((r >>> 62) % 0x1000) ++ "-" ++ hexDigits 4 (0x8000 + (r >>> 48) % 0x4000) ++
    "-" ++ hexDigits 12 (r % 0x1000000000000)

/-- A random UUID from a pseudo-random generator, and the generator after it. -/
def nextUuid (g : StdGen) : String × StdGen :=
  let (r, g) := randNat g 0 0x3ffffffffffffffffffffffffffffff
  (uuidOfBits r, g)

/-- A supply of random version 4 UUIDs, drawn from a pseudo-random generator. -/
def uuid (g : StdGen) : IdSupply StdGen :=
  ⟨g, nextUuid⟩

end IdSupply

end SurveyBranching
