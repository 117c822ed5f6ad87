/-!
# Maps keyed by text

Answers are kept by option id and by question id, each key once, and written in key order.
`Keyed α` is that map: a list of entries sorted by key with no key twice, built by `insert`,
which replaces the value of a key already present. Building from a list therefore keeps the
last value given for each key.

## Main definitions

* `Keyed`, `Keyed.insert`, `Keyed.ofList`, `Keyed.get?`, `Keyed.values`.
-/

namespace SurveyBranching

/-- A map from text keys, held as entries sorted by key, each key once. -/
structure Keyed (α : Type) where
  entries : List (String × α) := []
deriving Inhabited

namespace Keyed

variable {α : Type}

/-- Inserts an entry into a key-sorted entry list, replacing the entry of an equal key. -/
def insertEntry (k : String) (v : α) : List (String × α) → List (String × α)
  | [] => [(k, v)]
  | (k', v') :: rest =>
    if k < k' then (k, v) :: (k', v') :: rest
    else if k = k' then (k, v) :: rest
    else (k', v') :: insertEntry k v rest

/-- The map with `k` sent to `v`. -/
def insert (m : Keyed α) (k : String) (v : α) : Keyed α :=
  ⟨insertEntry k v m.entries⟩

/-- The map of a list of entries, a later entry of a key replacing an earlier one. -/
def ofList (l : List (String × α)) : Keyed α :=
  l.foldl (fun m e => m.insert e.1 e.2) {}

/-- The value of a key. -/
def get? (m : Keyed α) (k : String) : Option α :=
  (m.entries.find? (·.1 == k)).map (·.2)

/-- The values, in key order. -/
def values (m : Keyed α) : List α :=
  m.entries.map (·.2)

/-- Whether the map has no entry. -/
def isEmpty (m : Keyed α) : Bool :=
  m.entries.isEmpty

end Keyed

end SurveyBranching
