/-!
# Quoted text in expressions

A text inside an expression is written between double quotes, with a backslash before each
double quote and each backslash. Reading drops every backslash and keeps the character after
it, so that reading undoes writing.

## Main definitions

* `Text.escape`, `Text.unescape`, on character lists.
* `Text.quote`: the quoted form of a string.
-/

namespace SurveyBranching.Text

/-- A backslash before each double quote and each backslash. -/
def escape : List Char → List Char
  | [] => []
  | c :: rest => if c = '"' ∨ c = '\\' then '\\' :: c :: escape rest else c :: escape rest

/-- Drops each backslash and keeps the character after it. -/
def unescape : List Char → List Char
  | [] => []
  | '\\' :: c :: rest => c :: unescape rest
  | c :: rest => c :: unescape rest

/-- The quoted form of a string: escaped, between double quotes. -/
def quote (s : String) : String :=
  String.ofList ('"' :: escape s.toList ++ ['"'])

/-- A character other than a backslash is read as itself. -/
theorem unescape_cons_of_ne {c : Char} (h : c ≠ '\\') (l : List Char) :
    unescape (c :: l) = c :: unescape l :=
  unescape.eq_3 c l (fun _ _ hc => absurd hc h)

/-- Reading undoes escaping. -/
theorem unescape_escape (cs : List Char) : unescape (escape cs) = cs := by
  induction cs with
  | nil => rfl
  | cons c rest ih =>
    by_cases h : c = '"' ∨ c = '\\'
    · simp [escape, h, unescape, ih]
    · have hb : c ≠ '\\' := fun hc => h (Or.inr hc)
      simp only [escape, h, if_false]
      rw [unescape_cons_of_ne hb, ih]

end SurveyBranching.Text
