import SurveyBranching.Proofs.Scanning
/-!
# Reading the text of a tree

Reading keeps a stack of logical nodes that wait for operands. The words of a tree, read on
top of any stack, build exactly that tree and then join it to the stack (`Expr.resume`); the
stack grows by one for each logical node on the way down, so the deepest it gets is its
height at the start plus the tree's logical height, and the depth limit fails the reading
exactly when that exceeds it. Together with scanning, the text of every readable tree reads
back as the tree, or fails as too deep.

## Main definitions

* `Expr.resume`: what reading does once a tree is finished.

## Main statements

* `Expr.literalOf_token`: the word of a literal stands for the literal.
* `Expr.grow_tokens`: reading the words of a tree, with the depth it needs.
* `Expr.parse_render`: a readable tree's text reads back as the tree unless it is too deep.
* `Expr.parse_of_isBlankText`: a blank text is no tree.
-/

namespace SurveyBranching

namespace Expr

/-- An integer reads back as itself. -/
theorem integerOf?_toString (n : Int64) : integerOf? (toString n.toInt) = some n := by
  have hlo := Int64.le_toInt n
  have hhi := Int64.toInt_lt n
  unfold integerOf?
  cases h : n.toInt with
  | ofNat m =>
    -- The digits of a natural number do not start with a minus.
    obtain ⟨d, ds, hds⟩ := List.exists_cons_of_ne_nil
      (Nat.toDigits_ne_nil : Nat.toDigits 10 m ≠ [])
    have hd : d ≠ '-' := by
      have : d.isDigit := Token.isDigit_of_mem_toDigits (by rw [hds]; exact List.mem_cons_self)
      rintro rfl; simp at this
    have hlt : m < 9223372036854775808 := by rw [h] at hhi; simpa using Int.ofNat_lt.mp hhi
    simp only [toString, Int.repr, Nat.toList_repr, hds]
    split
    · next heq => cases heq; exact absurd rfl hd
    · rw [← hds, Token.digitsValue_toDigits, if_pos hlt, show (m : Int) = n.toInt by rw [h]; rfl,
        Int64.ofInt_toInt]
  | negSucc m =>
    have hle : m.succ ≤ 9223372036854775808 := by
      rw [h] at hlo; simp [Int.negSucc_eq] at hlo; omega
    simp only [toString, Int.repr, String.toList_append, Nat.toList_repr,
      show "-".toList = ['-'] from rfl, List.singleton_append]
    rw [Token.digitsValue_toDigits, if_pos hle,
      show -((m.succ : Nat) : Int) = n.toInt by rw [h]; rfl, Int64.ofInt_toInt]

/-- The word of a literal stands for that literal. -/
theorem literalOf_token (v : Literal) (start stop : Nat) :
    literalOf ⟨v.token, start, stop⟩ = .ok v := by
  cases v with
  | text s =>
    simp [literalOf, Literal.token, Text.quote, Text.unescape_escape]
  | integer n => simp only [literalOf, Literal.token, integerOf?_toString]
  | decimal l => rfl

/-! ## Reading the words of a tree -/

/-- What reading does once a tree `e` is finished with `waiting` on the stack: `e` joins the
stack, and reading answers the whole tree or goes on with the words after it. -/
def resume (limit : Nat) (e : Expr) (waiting : List Waiting) (rest : List Spanned) :
    Except ParseError (Expr × List Spanned) :=
  match attach e waiting with
  | .inl e => .ok (e, rest)
  | .inr waiting' => grow limit waiting' rest

/-- A finished left side waits for the right one. -/
theorem resume_left (limit : Nat) (c : Clause) (l : Expr) (waiting : List Waiting)
    (rest : List Spanned) :
    resume limit l (⟨c, none⟩ :: waiting) rest = grow limit (⟨c, some l⟩ :: waiting) rest := rfl

/-- A finished right side finishes its node. -/
theorem resume_right (limit : Nat) (c : Clause) (l r : Expr) (waiting : List Waiting)
    (rest : List Spanned) :
    resume limit r (⟨c, some l⟩ :: waiting) rest = resume limit (.logical c l r) waiting rest := rfl

/-- **Reading the words of a tree** on top of a stack of `waiting` nodes builds that tree and
resumes after it, provided the stack never holds more than `limit` nodes before an operator
word: the deepest point is the stack's height plus the tree's logical height. -/
theorem grow_tokens (limit : Nat) (e : Expr) :
    ∀ (waiting : List Waiting) (sp rest : List Spanned), sp.map (·.token) = e.tokens →
      grow limit waiting (sp ++ rest) =
        if waiting.length + e.logicalHeight ≤ limit then resume limit e waiting rest
        else .error (.tooDeep limit) := by
  induction e with
  | test r s v =>
    intro waiting sp rest hsp
    -- The words are the relation, the subject and the literal.
    rcases sp with _ | ⟨⟨t₁, p₁, q₁⟩, _ | ⟨⟨t₂, p₂, q₂⟩, _ | ⟨⟨t₃, p₃, q₃⟩, _ | ⟨x, sp⟩⟩⟩⟩ <;>
      simp [tokens] at hsp
    obtain ⟨rfl, rfl, rfl⟩ := hsp
    rw [grow.eq_def]
    by_cases hlim : waiting.length > limit
    · rw [if_pos hlim, if_neg (by simp [logicalHeight]; omega)]
    · rw [if_neg hlim, if_pos (by simp [logicalHeight]; omega)]
      simp only [List.cons_append, List.nil_append, literalOf_token]
      rfl
  | logical c l r ihl ihr =>
    intro waiting sp rest hsp
    -- The words are the clause, then those of the left side, then those of the right side.
    obtain ⟨⟨t, p, q⟩, sp', rfl, ht, hsp'⟩ := List.map_eq_cons_iff.mp hsp
    obtain ⟨spl, spr, rfl, hl, hr⟩ := List.map_eq_append_iff.mp hsp'
    simp only at ht
    subst ht
    rw [grow.eq_def]
    by_cases hlim : waiting.length > limit
    · rw [if_pos hlim, if_neg (by simp [logicalHeight]; omega)]
    · rw [if_neg hlim]
      show grow limit (⟨c, none⟩ :: waiting) (spl ++ spr ++ rest) = _
      rw [List.append_assoc, ihl _ _ _ hl, resume_left, ihr _ _ _ hr, resume_right,
        List.length_cons, List.length_cons]
      have hheight : (logical c l r).logicalHeight = max l.logicalHeight r.logicalHeight + 1 := rfl
      by_cases hleft : waiting.length + 1 + l.logicalHeight ≤ limit <;>
        by_cases hright : waiting.length + 1 + r.logicalHeight ≤ limit
      · rw [if_pos hright, if_pos hleft, if_pos (by omega)]
      · rw [if_neg hright, if_pos hleft, if_neg (by omega)]
      · rw [if_neg hleft, if_neg (by omega)]
      · rw [if_neg hleft, if_neg (by omega)]

/-- **The text of a readable tree reads back as that tree**, unless the tree is deeper than
the limit, which is then the error. -/
theorem parse_render {e : Expr} (he : e.Readable) (limit : Nat) :
    parse limit e.render = if e.logicalHeight ≤ limit then .ok e else .error (.tooDeep limit) := by
  obtain ⟨sp, htok, hscan⟩ := scan_render he
  have hgrow := grow_tokens limit e [] sp [] htok
  rw [List.append_nil, List.length_nil, Nat.zero_add] at hgrow
  have hne : sp.isEmpty = false := by
    cases sp with
    | nil => cases e <;> simp [tokens] at htok
    | cons x sp => rfl
  simp only [parse, hscan, bind, Except.bind, hne, hgrow, Bool.false_eq_true, if_false]
  by_cases hlim : e.logicalHeight ≤ limit
  · rw [if_pos hlim, if_pos hlim]
    rfl
  · rw [if_neg hlim, if_neg hlim]

/-- A blank text is no tree: it has no word. -/
theorem parse_of_isBlankText {s : String} (h : Text.isBlankText s = true) (limit : Nat)
    (e : Expr) : parse limit s ≠ .ok e := by
  intro hp
  cases hscan : Token.scan s with
  | error err =>
    simp only [parse, hscan, bind, Except.bind] at hp
    cases hp
  | ok ws =>
    have hws : ws = [] := by
      simpa using Token.scanFrom_of_isBlank (by simpa [Text.isBlankText] using h) 0 [] ws hscan
    subst hws
    simp only [parse, hscan, bind, Except.bind] at hp
    cases hp

end Expr

end SurveyBranching
