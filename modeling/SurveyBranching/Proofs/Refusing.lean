import SurveyBranching.Proofs.Storing
/-!
# Reading fails as a whole

Reading an expression as conditions gives all of them or none. Ids are drawn only once the
last test has been read, so a failure draws none, and the lenient reader, which turns a failure
into no conditions, hands the supply back as it was.

The error is the first one met in a fixed order. A blank text never fails. A question kind
without a selection mode refuses every other text, whatever it holds. A text that does not
parse fails with the parse error, and a tree fails with the error of its leftmost test that
cannot be read, whatever the tests to the right of it are.

## Main definitions

* `FirstError`: the first element of a list that a function refuses, with its error.

## Main statements

* `mapM_eq_error_iff`: mapping in `Except` fails with the error of the first refused element.
* `Question.conditionsOf_eq_error_iff`: when reading fails, and with which error.
* `Question.conditionsOrNone_eq_nil_iff`: the lenient reader gives no conditions exactly for a
  blank text or a failed reading.
-/

namespace SurveyBranching

variable {σ : Type}

section FirstError

variable {α β ε : Type} {f : α → Except ε β}

/-- `f` refuses an element of `l` with `err` and accepts every element before it. -/
def FirstError (f : α → Except ε β) (l : List α) (err : ε) : Prop :=
  ∃ pre x post, l = pre ++ x :: post ∧ (∀ y ∈ pre, ∃ b, f y = .ok b) ∧ f x = .error err

theorem not_firstError_nil (err : ε) : ¬ FirstError f [] err := by
  rintro ⟨pre, x, post, h, -, -⟩
  simp at h

/-- Past an accepted head, the first refused element is in the tail. -/
theorem firstError_cons_of_ok {x : α} {b : β} (hx : f x = .ok b) (l : List α) (err : ε) :
    FirstError f (x :: l) err ↔ FirstError f l err := by
  constructor
  · rintro ⟨pre, y, post, h, hpre, hy⟩
    cases pre with
    | nil =>
      -- The refused element would be the head, which is accepted.
      obtain ⟨rfl, -⟩ := List.cons.inj h
      rw [hx] at hy
      cases hy
    | cons z pre =>
      obtain ⟨rfl, rfl⟩ := List.cons.inj h
      exact ⟨pre, y, post, rfl, fun w hw => hpre w (List.mem_cons_of_mem _ hw), hy⟩
  · rintro ⟨pre, y, post, rfl, hpre, hy⟩
    refine ⟨x :: pre, y, post, rfl, ?_, hy⟩
    intro w hw
    rcases List.mem_cons.mp hw with rfl | hw
    · exact ⟨b, hx⟩
    · exact hpre w hw

/-- A refused head is the first refused element. -/
theorem firstError_cons_of_error {x : α} {e : ε} (hx : f x = .error e) (l : List α) (err : ε) :
    FirstError f (x :: l) err ↔ e = err := by
  constructor
  · rintro ⟨pre, y, post, h, hpre, hy⟩
    cases pre with
    | nil =>
      obtain ⟨rfl, -⟩ := List.cons.inj h
      rw [hx] at hy
      exact Except.error.inj hy
    | cons z pre =>
      -- The head would be accepted, yet it is refused.
      obtain ⟨rfl, -⟩ := List.cons.inj h
      obtain ⟨b, hb⟩ := hpre _ List.mem_cons_self
      rw [hx] at hb
      cases hb
  · rintro rfl
    exact ⟨[], x, l, rfl, by simp, hx⟩

/-- **Mapping in `Except` fails with the error of the first element refused**, whatever the
elements after it. -/
theorem mapM_eq_error_iff {l : List α} {err : ε} :
    l.mapM f = .error err ↔ FirstError f l err := by
  induction l with
  | nil => simp [not_firstError_nil, pure, Except.pure]
  | cons x l ih =>
    cases hx : f x with
    | error e =>
      rw [firstError_cons_of_error hx, List.mapM_cons, hx]
      exact ⟨fun h => Except.error.inj h, fun h => h ▸ rfl⟩
    | ok b =>
      rw [firstError_cons_of_ok hx, ← ih, List.mapM_cons, hx]
      cases l.mapM f <;> simp [bind, Except.bind, pure, Except.pure]

end FirstError

/-- A tree's tests fail to read with the error of its leftmost test that cannot be read. -/
theorem Question.testsOf_eq_error_iff {q : Question} {mode : SelectionMode} {e : Expr}
    {err : DecodeError} :
    q.testsOf mode e = .error err ↔ FirstError (q.testOf mode) e.leaves err := by
  rw [Question.testsOf_eq, ← mapM_eq_error_iff]
  cases e.leaves.mapM (q.testOf mode) <;> simp [Except.map]

/-- Both tests of `or eq val1 "X" contains cnt1 2` fail; the left one's error is the one
reported. -/
example : Question.testsOf ⟨"q1", .single, "", [⟨"a1", "A"⟩], none⟩ .single
    (.logical .or (.test .eq (.value 1) (.text "X")) (.test .contains (.count 1) (.integer 2))) =
    .error (.unknownOption "X") := by
  decide

section Reading

variable {q : Question} {limits : Limits} {ids : IdSupply σ} {s : String}

/-- **When reading an expression fails, and with which error.** A blank text never fails. Any
other text fails for a kind without a selection mode, whatever it holds; for a kind with one,
it fails with the parse error when it does not parse, and otherwise with the error of the
leftmost test of its tree that cannot be read. -/
theorem Question.conditionsOf_eq_error_iff {err : DecodeError} :
    q.conditionsOf limits ids s = .error err ↔
      Text.isBlankText s = false ∧
        (q.kind.selectionMode = none ∧ err = .unsupportedKind q.kind ∨
          ∃ mode, q.kind.selectionMode = some mode ∧
            ((∃ pe, Expr.parse limits.maxExpressionDepth s = .error pe ∧ err = .parse pe) ∨
              ∃ e, Expr.parse limits.maxExpressionDepth s = .ok e ∧
                FirstError (q.testOf mode) e.leaves err)) := by
  cases hblank : Text.isBlankText s with
  | true => simp [Question.conditionsOf, hblank]
  | false =>
    cases hmode : q.kind.selectionMode with
    | none => simp [Question.conditionsOf, hblank, hmode, eq_comm]
    | some mode =>
      cases hparse : Expr.parse limits.maxExpressionDepth s with
      | error pe => simp [Question.conditionsOf, hblank, hmode, hparse, eq_comm]
      | ok e =>
        rw [Question.conditionsOf_of_parse hmode limits ids hblank hparse]
        cases htests : q.testsOf mode e <;>
          simp [Except.map, ← Question.testsOf_eq_error_iff, htests]

/-- A text that is not blank and can be read gives at least one condition: its tree has a
test, and each test gives a condition. -/
theorem Question.conditionsOf_ne_nil {cs : List Condition} {ids' : IdSupply σ}
    (hs : Text.isBlankText s = false) (h : q.conditionsOf limits ids s = .ok (cs, ids')) :
    cs ≠ [] := by
  rcases Question.conditionsOf_eq_ok h with ⟨hblank, -, -⟩ | ⟨mode, e, tests, -, -, htests, hname⟩
  · rw [hs] at hblank
    cases hblank
  · obtain ⟨ts, hts, rfl⟩ := Question.testsOf_eq_ok htests
    have hlen : ts.length = e.leaves.length := length_of_mapM_eq_ok hts
    have hjoins := Expr.length_joins e
    have hpos := Expr.length_leaves_pos e
    have hcs : cs.length = (List.zip (e.joins ++ [Clause.and]) ts).length := by
      rw [← IdSupply.map_name ids (List.zip (e.joins ++ [Clause.and]) ts), List.length_map, hname]
    rw [List.length_zip, List.length_append, List.length_singleton] at hcs
    exact List.ne_nil_of_length_pos (by omega)

/-- A blank text or a failed reading leaves the lenient reader with no conditions and the
supply as it was. -/
theorem Question.conditionsOrNone_of_blank_or_error
    (h : Text.isBlankText s = true ∨ ∃ err, q.conditionsOf limits ids s = .error err) :
    q.conditionsOrNone limits ids s = ([], ids) := by
  rcases h with hblank | ⟨err, herr⟩
  · exact Question.conditionsOrNone_of_isBlankText hblank
  · simp [Question.conditionsOrNone, herr]

/-- **The lenient reader gives no conditions exactly for a blank text or a failed reading**;
for any other text it gives at least one. -/
theorem Question.conditionsOrNone_eq_nil_iff :
    (q.conditionsOrNone limits ids s).1 = [] ↔
      Text.isBlankText s = true ∨ ∃ err, q.conditionsOf limits ids s = .error err := by
  constructor
  · intro hnil
    cases hblank : Text.isBlankText s with
    | true => exact .inl rfl
    | false =>
      refine .inr ?_
      cases h : q.conditionsOf limits ids s with
      | error err => exact ⟨err, rfl⟩
      | ok r =>
        -- A reading that succeeds on a text that is not blank has conditions.
        have hne := Question.conditionsOf_ne_nil hblank h
        simp only [Question.conditionsOrNone, h] at hnil
        exact absurd hnil hne
  · intro h
    rw [Question.conditionsOrNone_of_blank_or_error h]

/-- **Reading fails as a whole, at the leftmost test that cannot be read.** Reading fails
exactly for a text that is not blank and either belongs to a kind without a selection mode
(whatever it holds), or does not parse (with the parse error), or parses to a tree with a test
that cannot be read (with the error of the leftmost such test, whatever the tests after it).
The lenient reader gives no conditions exactly for a blank text or a failed reading, and then
draws no id; for any other text it gives at least one condition. -/
theorem Question.conditionsOf_fails_whole (q : Question) (limits : Limits) (ids : IdSupply σ)
    (s : String) (err : DecodeError) :
    (q.conditionsOf limits ids s = .error err ↔
      Text.isBlankText s = false ∧
        (q.kind.selectionMode = none ∧ err = .unsupportedKind q.kind ∨
          ∃ mode, q.kind.selectionMode = some mode ∧
            ((∃ pe, Expr.parse limits.maxExpressionDepth s = .error pe ∧ err = .parse pe) ∨
              ∃ e, Expr.parse limits.maxExpressionDepth s = .ok e ∧
                FirstError (q.testOf mode) e.leaves err))) ∧
    ((q.conditionsOrNone limits ids s).1 = [] ↔
      Text.isBlankText s = true ∨ ∃ err, q.conditionsOf limits ids s = .error err) ∧
    ((Text.isBlankText s = true ∨ ∃ err, q.conditionsOf limits ids s = .error err) →
      q.conditionsOrNone limits ids s = ([], ids)) :=
  ⟨Question.conditionsOf_eq_error_iff, Question.conditionsOrNone_eq_nil_iff,
    Question.conditionsOrNone_of_blank_or_error⟩

end Reading

end SurveyBranching
