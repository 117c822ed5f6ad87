/-!
# JSON values

Surveys, answers and stored rules travel as JSON. A value keeps what the reader saw: an
integer literal that fits in 64 bits as an exact integer, every other number as a double,
and an object's members in their order of appearance, repeated keys included, so that the
readers of the data model can refuse a repeated field.

A file is read leniently: a part of it that is well formed but has no value (a number
beyond the range of a double, a string with an unpaired surrogate escape, an object with
such a key) is kept as `unreadable`, and nesting is not limited. A reader that passes over
such a part is not disturbed by it; one that reads it fails.

## Main definitions

* `Json`: the value type.
* `Json.collapse`: one member per key, the last one winning, in key order; this is the
  form an object takes once it has been stored in a sorted map.
* `Json.lookup`, `Json.lookupAll`: member access.
* `Json.nesting`, `Json.readable`: how deep containers nest, and whether every part has a
  value.
-/

namespace SurveyBranching

/-- A JSON value. Numbers are split by what the reader could keep exactly: `int` for an
integer literal in the signed or unsigned 64-bit range, `float` for everything else. -/
inductive Json where
  | null
  | bool (b : Bool)
  | int (n : Int)
  | float (x : Float)
  | str (s : String)
  | arr (items : List Json)
  | obj (members : List (String × Json))
  /-- A well-formed part of a text that has no value. -/
  | unreadable
deriving Inhabited

namespace Json

/-- Inserts a member into a key-sorted member list, replacing a member of the same key. -/
def insertSorted (k : String) (v : Json) : List (String × Json) → List (String × Json)
  | [] => [(k, v)]
  | (k', v') :: rest =>
    if k < k' then (k, v) :: (k', v') :: rest
    else if k = k' then (k, v) :: rest
    else (k', v') :: insertSorted k v rest

mutual
/-- The value with every object reduced to one member per key, the last one winning, and
members sorted by key: the shape a value has after passing through a sorted map. -/
def collapse : Json → Json
  | .arr items => .arr (collapseItems items)
  | .obj members => .obj ((collapseMembers members).foldl (fun acc m => insertSorted m.1 m.2 acc) [])
  | v => v

/-- `collapse` on each item of an array. -/
def collapseItems : List Json → List Json
  | [] => []
  | v :: rest => collapse v :: collapseItems rest

/-- `collapse` on each member value of an object. -/
def collapseMembers : List (String × Json) → List (String × Json)
  | [] => []
  | (k, v) :: rest => (k, collapse v) :: collapseMembers rest
end

mutual
/-- How many containers nest in a value: `0` for a scalar, one more than the deepest item
or member for a container. -/
def nesting : Json → Nat
  | .arr items => nestingItems items + 1
  | .obj members => nestingMembers members + 1
  | _ => 0

/-- The deepest `nesting` of some items. -/
def nestingItems : List Json → Nat
  | [] => 0
  | v :: rest => max (nesting v) (nestingItems rest)

/-- The deepest `nesting` of some member values. -/
def nestingMembers : List (String × Json) → Nat
  | [] => 0
  | (_, v) :: rest => max (nesting v) (nestingMembers rest)
end

mutual
/-- Whether every part of a value has a value: nothing in it is `unreadable`. -/
def readable : Json → Bool
  | .unreadable => false
  | .arr items => readableItems items
  | .obj members => readableMembers members
  | _ => true

/-- Whether every item is `readable`. -/
def readableItems : List Json → Bool
  | [] => true
  | v :: rest => readable v && readableItems rest

/-- Whether every member value is `readable`. -/
def readableMembers : List (String × Json) → Bool
  | [] => true
  | (_, v) :: rest => readable v && readableMembers rest
end

/-- The members of an object with this key, in order. -/
def lookupAll (members : List (String × Json)) (k : String) : List Json :=
  (members.filter (·.1 == k)).map (·.2)

/-- The value of the last member with this key. -/
def lookup (members : List (String × Json)) (k : String) : Option Json :=
  (lookupAll members k).getLast?

end Json

end SurveyBranching
