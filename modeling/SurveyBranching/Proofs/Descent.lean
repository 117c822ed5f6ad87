import SurveyBranching.Proofs.Reading
/-!
# Reading with a stack is reading by recursive descent

The reader keeps the logical nodes that wait for operands on a stack, so that deep nesting
never deepens a call stack, and checks the depth limit on the height of that stack before each
operator word. Plain recursive descent reads the same grammar by calling itself for each
operand, one level deeper, and checks the limit on its depth before reading an operator word
(`Expr.descend`). The two agree on every list of words, the errors included: the stack holds,
at each operator word, exactly the logical nodes above it, so the limit fails at the same word,
and the words are read in the same order, so the first one that does not fit is the same.

## Main definitions

* `Expr.identifierAt`, `Expr.valueAt`: the identifier and the value after a relation word.
* `Expr.descend`, `Expr.descendAll`: recursive descent, and the whole reading built on it.

## Main statements

* `Expr.grow_eq_descend`: on a stack of `d` nodes, the reader reads one operand by descent
  from depth `d`, then goes on with the stack.
* `Expr.parse_eq_descendAll`: reading a text is scanning it and reading its words by descent.
-/

namespace SurveyBranching.Expr

/-- The subject a word must be where an identifier is expected. -/
def identifierAt : List Spanned → Except ParseError (Subject × List Spanned)
  | [] => .error (.unexpectedEnd .identifier)
  | ⟨.subject s, _, _⟩ :: rest => .ok (s, rest)
  | ⟨t, p, _⟩ :: _ => .error (.unexpectedToken t p .identifier)

/-- The literal a word must stand for where a value is expected. -/
def valueAt : List Spanned → Except ParseError (Literal × List Spanned)
  | [] => .error (.unexpectedEnd .value)
  | w :: rest =>
    match literalOf w with
    | .error e => .error e
    | .ok v => .ok (v, rest)

/-- Reading one expression by recursive descent, with `depth` logical nodes above it: too deep
past the limit, else an operator word; a clause takes two operands one level deeper, a relation
an identifier and a value. Answers the tree and the words after it. -/
def descend (limit : Nat) (depth : Nat) (words : List Spanned) :
    Except ParseError (Expr × List Spanned) :=
  if depth > limit then .error (.tooDeep limit)
  else
    match words with
    | [] => .error (.unexpectedEnd .operator)
    | ⟨.clause c, _, _⟩ :: rest =>
      match descend limit (depth + 1) rest with
      | .error e => .error e
      | .ok (l, rest) =>
        match descend limit (depth + 1) rest with
        | .error e => .error e
        | .ok (r, rest) => .ok (.logical c l r, rest)
    | ⟨.relation r, _, _⟩ :: rest =>
      match identifierAt rest with
      | .error e => .error e
      | .ok (s, rest) =>
        match valueAt rest with
        | .error e => .error e
        | .ok (v, rest) => .ok (.test r s v, rest)
    | ⟨t, p, _⟩ :: _ => .error (.unexpectedToken t p .operator)
termination_by limit + 1 - depth

/-- Reading all the words by recursive descent: none at all is the empty expression, and words
left after the tree are trailing input at the first of them. -/
def descendAll (limit : Nat) (words : List Spanned) : Except ParseError Expr :=
  if words.isEmpty then .error .empty
  else
    match descend limit 0 words with
    | .error e => .error e
    | .ok (e, []) => .ok e
    | .ok (_, w :: _) => .error (.trailingInput w.start)

/-! ## One step of the reader -/

section grow

variable {limit : Nat} {waiting : List Waiting}

theorem grow_of_gt (h : waiting.length > limit) (words : List Spanned) :
    grow limit waiting words = .error (.tooDeep limit) := by
  rw [grow.eq_def limit waiting words, if_pos h]

theorem grow_nil (h : ¬waiting.length > limit) :
    grow limit waiting [] = .error (.unexpectedEnd .operator) := by
  rw [grow.eq_def limit waiting [], if_neg h]

/-- A clause word puts its node on the stack. -/
theorem grow_clause (h : ¬waiting.length > limit) (c : Clause) (p q : Nat)
    (rest : List Spanned) :
    grow limit waiting (⟨.clause c, p, q⟩ :: rest) = grow limit (⟨c, none⟩ :: waiting) rest := by
  rw [grow.eq_def limit waiting, if_neg h]

/-- A relation word is followed by an identifier and a value, and the test they make joins the
stack. -/
theorem grow_relation (h : ¬waiting.length > limit) (r : Relation) (p q : Nat)
    (rest : List Spanned) :
    grow limit waiting (⟨.relation r, p, q⟩ :: rest) =
      match identifierAt rest with
      | .error e => .error e
      | .ok (s, rest) =>
        match valueAt rest with
        | .error e => .error e
        | .ok (v, rest) => resume limit (.test r s v) waiting rest := by
  rw [grow.eq_def limit waiting, if_neg h]
  rcases rest with _ | ⟨⟨t, p', q'⟩, rest⟩
  · rfl
  · cases t with
    | subject s =>
      rcases rest with _ | ⟨w, rest⟩
      · rfl
      · simp only [identifierAt, valueAt]
        cases literalOf w <;> rfl
    | _ => rfl

/-- Any other word where an operator is expected is the error. -/
theorem grow_other (h : ¬waiting.length > limit) {t : Token} (hc : ∀ c, t = .clause c → False)
    (hr : ∀ r, t = .relation r → False) (p q : Nat) (rest : List Spanned) :
    grow limit waiting (⟨t, p, q⟩ :: rest) = .error (.unexpectedToken t p .operator) := by
  rw [grow.eq_def limit waiting, if_neg h]
  cases t with
  | clause c => exact absurd rfl (hc c)
  | relation r => exact absurd rfl (hr r)
  | _ => rfl

end grow

/-! ## The reader and the descent -/

/-- **On a stack of `depth` waiting nodes, the reader reads one operand by recursive descent
from that depth**, then joins it to the stack and goes on; the first error of the descent is
the reader's. -/
theorem grow_eq_descend (limit depth : Nat) (words : List Spanned) :
    ∀ waiting : List Waiting, waiting.length = depth →
      grow limit waiting words =
        match descend limit depth words with
        | .error e => .error e
        | .ok (e, rest) => resume limit e waiting rest := by
  fun_induction descend limit depth words with
  | case1 depth words hdeep =>
    intro waiting hw
    rw [grow_of_gt (by omega)]
  | case2 depth hfit =>
    intro waiting hw
    rw [grow_nil (by omega)]
  | case3 depth hfit c p q rest e hl ihl =>
    intro waiting hw
    rw [grow_clause (by omega), ihl _ (by simp [hw]), hl]
  | case4 depth hfit c p q rest l rest' hl e hr ihl ihr =>
    intro waiting hw
    rw [grow_clause (by omega), ihl _ (by simp [hw]), hl]
    dsimp only
    rw [resume_left, ihr _ (by simp [hw]), hr]
  | case5 depth hfit c p q rest l rest' hl r rest'' hr ihl ihr =>
    intro waiting hw
    rw [grow_clause (by omega), ihl _ (by simp [hw]), hl]
    dsimp only
    rw [resume_left, ihr _ (by simp [hw]), hr]
    rfl
  | case6 depth hfit r p q rest e hid =>
    intro waiting hw
    rw [grow_relation (by omega), hid]
  | case7 depth hfit r p q rest s rest' hid e hval =>
    intro waiting hw
    rw [grow_relation (by omega), hid]
    dsimp only
    rw [hval]
  | case8 depth hfit r p q rest s rest' hid v rest'' hval =>
    intro waiting hw
    rw [grow_relation (by omega), hid]
    dsimp only
    rw [hval]
  | case9 depth hfit t p q tail hc hr =>
    intro waiting hw
    rw [grow_other (by omega) hc hr]

/-- With nothing waiting, the reader reads exactly one expression by descent from the top. -/
theorem grow_nil_eq_descend (limit : Nat) (words : List Spanned) :
    grow limit [] words = descend limit 0 words := by
  rw [grow_eq_descend limit 0 words [] rfl]
  cases descend limit 0 words with
  | error e => rfl
  | ok p => rfl

/-- **Reading a text is scanning it into words and reading them by recursive descent**, every
error included: the scanner's, the empty text's, the first word that does not fit, and input
left after the expression. -/
theorem parse_eq_descendAll (limit : Nat) (input : String) :
    parse limit input = (Token.scan input).bind (descendAll limit) := by
  unfold parse descendAll
  cases Token.scan input with
  | error e => rfl
  | ok words =>
    simp only [bind, Except.bind, grow_nil_eq_descend]
    split
    · rfl
    · cases descend limit 0 words with
      | error e => rfl
      | ok p =>
        obtain ⟨e, rest⟩ := p
        cases rest <;> rfl

end SurveyBranching.Expr
