/-!
# Blank characters

A title, an option value or an expression counts as blank when every character of it is
white space in the sense of the Unicode `White_Space` property. Core's `Char.isWhitespace`
knows only four ASCII characters, so the property is written out here as a table of ranges.

## Main definitions

* `Text.blankRanges`: the code point ranges of `White_Space`, in increasing order.
* `Text.isBlank`: membership of a character in those ranges.
* `Text.IsBlankText`: a text made of blank characters only, the empty text included.
-/

namespace SurveyBranching.Text

/-- The code points of the Unicode `White_Space` property, as closed ranges in increasing
order: the ASCII controls tab to carriage return, space, next line, no-break space, ogham
space mark, the general punctuation spaces, line and paragraph separators, narrow no-break
space, medium mathematical space and ideographic space. -/
def blankRanges : List (Nat × Nat) :=
  [(0x09, 0x0D), (0x20, 0x20), (0x85, 0x85), (0xA0, 0xA0), (0x1680, 0x1680),
   (0x2000, 0x200A), (0x2028, 0x2029), (0x202F, 0x202F), (0x205F, 0x205F),
   (0x3000, 0x3000)]

/-- A character is blank when its code point lies in one of `blankRanges`. -/
def isBlank (c : Char) : Bool :=
  blankRanges.any fun r => r.1 ≤ c.toNat && c.toNat ≤ r.2

/-- A text is blank when all its characters are: what is left after trimming white space
from both ends is then empty. -/
def isBlankText (s : String) : Bool :=
  s.toList.all isBlank

/-- Core's ASCII white space is blank. -/
theorem isBlank_of_isWhitespace (c : Char) (h : c.isWhitespace = true) : isBlank c = true := by
  simp only [Char.isWhitespace, Bool.or_eq_true, decide_eq_true_eq] at h
  simp only [isBlank, blankRanges, List.any_cons, List.any_nil, Bool.or_false,
    Bool.or_eq_true, Bool.and_eq_true, decide_eq_true_eq]
  rcases h with ((h | h) | h) | h <;> simp [h]

example : isBlank '　' = true ∧ isBlank ' ' = true ∧ isBlank '\x0c' = true := by
  decide

example : isBlank '​' = false ∧ isBlank 'a' = false := by decide

end SurveyBranching.Text
