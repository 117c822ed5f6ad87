import SurveyBranching.Proofs.Canonical
/-!
# Writing conditions gives the text of the canonical tree

`Question.expressionOf` lists the written tests with the clauses between them in infix order
and puts them in prefix order with a stack of clauses, reading from the right. An `or` moves
every `and` above it on the stack to the output; an `and` moves nothing, since no clause binds
tighter. So, read from the right, the words from some test on leave on the stack one `and` for
each later test of that test's run, above one `or` for each later run, while the output holds
that run's tests followed by the prefix words of the later runs (`readRight_infixOf`). Once
the first test has been read, emptying the stack writes the `or`s and then the `and`s in
front: the prefix words of the canonical tree.

## Main definitions

* `infixOf`: the infix form of written tests.
* `readRight`: the state of the stack after reading infix words from the right.

## Main statements

* `infixToPrefix_infixOf`: the prefix words are those of the canonical tree.
* `Question.expressionOf_eq_render`: the written expression is the canonical tree's text.
* `Question.matches_canonicalTree`: the canonical tree's value is what reducing the written
  conditions gives.
* `Question.expressionOf_canonical`: both together.
-/

namespace SurveyBranching

/-- The infix form of written tests: each test's text, and before each one after the first
the clause of the test before it, `pending` standing before the first. -/
def infixOf : Option Clause → List (Condition × Expr) → List InfixWord
  | _, [] => []
  | pending, x :: rest =>
    pending.toList.map .operator ++ .operand x.2.render :: infixOf (some x.1.clause) rest

/-- The state of the conversion after reading infix words from the right, starting empty. -/
def readRight (ws : List InfixWord) : Prefixing :=
  ws.foldr (fun w st => st.step w) ⟨[], []⟩

/-- The infix form of conditions is that of the tests they write. -/
theorem Question.infixWords_eq (q : Question) (mode : SelectionMode) (seq : UInt32)
    (pending : Option Clause) (cs : List Condition) :
    q.infixWords mode seq pending cs = infixOf pending (q.written mode seq cs) := by
  induction cs generalizing pending with
  | nil => rfl
  | cons c cs ih =>
    cases h : q.testExpr? mode seq c with
    | none => rw [Question.infixWords, h, Question.written_cons_of_none h, ih]
    | some e =>
      simp only [Question.infixWords, h]
      rw [Question.written_cons_of_some h, ih]
      rfl

theorem infixOf_some (c : Clause) {p : List (Condition × Expr)} (hp : p ≠ []) :
    infixOf (some c) p = .operator c :: infixOf none p := by
  obtain ⟨x, xs, rfl⟩ := List.exists_cons_of_ne_nil hp
  rfl

/-- The conversion is the state read from the right, its stack then emptied in front. -/
theorem infixToPrefix_eq (ws : List InfixWord) :
    infixToPrefix ws = (readRight ws).operators.reverse.map Clause.word ++ (readRight ws).output := by
  have hpop : ∀ (ops : List Clause) (out : List String),
      ops.foldl (fun out c => c.word :: out) out = ops.reverse.map Clause.word ++ out := by
    intro ops
    induction ops with
    | nil => simp
    | cons c ops ih => intro out; simp [ih]
  simp [infixToPrefix, readRight, hpop]

/-! ## The stack -/

/-- An `and` moves nothing: no clause binds tighter. -/
theorem popTighter_and (ops : List Clause) (out : List String) :
    Prefixing.popTighter .and ops out = (ops, out) := by
  cases ops with
  | nil => rfl
  | cons top ops => cases top <;> rfl

/-- An `or` moves every `and` above the first `or`. -/
theorem popTighter_or (a b : Nat) (out : List String) :
    Prefixing.popTighter .or (List.replicate a .and ++ List.replicate b .or) out =
      (List.replicate b .or, List.replicate a "and" ++ out) := by
  induction a generalizing out with
  | zero => cases b <;> rfl
  | succ a ih =>
    rw [List.replicate_succ, List.cons_append, Prefixing.popTighter, if_pos (by decide), ih,
      List.replicate_succ', List.append_assoc]
    rfl

/-- **The stack invariant.** Read from the right, the infix words of written tests whose first
run is `run` leave the `and`s of that run on the stack above one `or` for each later run, and
the output holds the run's tests followed by the words of the later runs. -/
theorem readRight_infixOf (p : List (Condition × Expr)) :
    ∀ run rest, runs p = run :: rest →
      readRight (infixOf none p) =
        ⟨List.replicate run.tail.length .and ++ List.replicate rest.length .or,
          run.map (·.2.render) ++ rest.flatMap runWords⟩ := by
  induction p with
  | nil => intro run rest h; cases h
  | cons x m ih =>
    intro run rest hruns
    cases m with
    | nil =>
      rw [runs_singleton] at hruns
      cases hruns
      rfl
    | cons y m =>
      obtain ⟨run', rest', hruns'⟩ := exists_runs_eq_cons (p := y :: m) (by simp)
      obtain ⟨z, zs, rfl⟩ :=
        List.exists_cons_of_ne_nil (ne_nil_of_mem_runs (hruns' ▸ List.mem_cons_self))
      -- The words are `x`, its clause, then those of `y :: m`, read after them from the right.
      have hread : readRight (infixOf none (x :: y :: m)) =
          ((readRight (infixOf none (y :: m))).step (.operator x.1.clause)).step
            (.operand x.2.render) := by
        show readRight (.operand x.2.render :: infixOf (some x.1.clause) (y :: m)) = _
        rw [infixOf_some _ (List.cons_ne_nil _ _)]
        rfl
      rw [hread, ih _ _ hruns']
      cases hc : x.1.clause with
      | and =>
        rw [runs_cons_cons_of_and hc, hruns'] at hruns
        cases hruns
        simp [Prefixing.step, popTighter_and, List.replicate_succ]
      | or =>
        rw [runs_cons_cons_of_or hc, hruns'] at hruns
        cases hruns
        simp [Prefixing.step, popTighter_or, runWords, List.replicate_succ]

/-- **The prefix words the stack writes are those of the canonical tree.** -/
theorem infixToPrefix_infixOf {p : List (Condition × Expr)} (hp : ∀ x ∈ p, x.2.isTest)
    {T : Expr} (hT : canonicalTree p = some T) : infixToPrefix (infixOf none p) = T.prefixWords := by
  obtain ⟨run, rest, t, hruns, -, -⟩ := canonicalTree_eq hT
  rw [infixToPrefix_eq, readRight_infixOf p run rest hruns, prefixWords_canonicalTree hp hT,
    hruns]
  simp [runWords, Clause.word]

/-! ## The written expression -/

section written

variable (q : Question) {mode : SelectionMode} (hmode : q.kind.selectionMode = some mode)
  (seq : UInt32) (cs : List Condition)
include hmode

/-- **The written expression is the text of the canonical tree of the written tests**, and
empty when nothing is written. -/
theorem Question.expressionOf_eq_render :
    q.expressionOf seq cs = ((canonicalTree (q.written mode seq cs)).map Expr.render).getD "" := by
  have htests : ∀ x ∈ q.written mode seq cs, x.2.isTest := fun x hx =>
    Question.isTest_of_mem_written hx
  rw [Question.expressionOf, hmode]
  dsimp only
  rw [Question.infixWords_eq]
  cases hT : canonicalTree (q.written mode seq cs) with
  | none =>
    rw [canonicalTree_eq_none.mp hT]
    rfl
  | some T =>
    rw [infixToPrefix_infixOf htests hT]
    exact (Expr.render_eq_intercalate T).symm

omit hmode in
/-- **The canonical tree means what the reduction computes**: a rule whose conditions are the
written ones reduces, when neither clause occurs more often than the cap among them, to the
canonical tree's value with each test read as its condition. -/
theorem Question.matches_canonicalTree {T : Expr}
    (hT : canonicalTree (q.written mode seq cs) = some T) (a : Answers) (k : Nat) {r : Rule}
    (hr : r.conditions = (q.written mode seq cs).map (·.1))
    (hand : (r.conditions.map (·.clause)).dropLast.count .and ≤ k)
    (hor : (r.conditions.map (·.clause)).dropLast.count .or ≤ k) :
    r.matches k a = .ok (T.valueOn (r.conditions.map (·.holds a))) := by
  have htests : ∀ x ∈ q.written mode seq cs, x.2.isTest := fun x hx =>
    Question.isTest_of_mem_written hx
  -- The clauses between the conditions are the joins of the tree, one condition for each test.
  have hclauses : (r.conditions.map (·.clause)).dropLast = T.joins := by
    rw [joins_canonicalTree htests hT, hr, List.map_map]
    rfl
  have hlen : r.conditions.length = T.leaves.length := by
    rw [hr, List.length_map, length_leaves_canonicalTree htests hT]
  rw [hclauses, Expr.count_joins] at hand hor
  exact Rule.matches_of_joins (orOverAnd_canonicalTree htests hT) hclauses hlen hand hor a

/-- **Writing conditions gives the canonical tree, and that tree means what the evaluator
computes.** For a question kind with a selection mode, the written expression is the text of
the canonical tree of the written tests, or empty when no condition is written; and a rule
whose conditions are the written ones, with no more than `k` of either clause among them
(the last clause apart), reduces with cap `k` to the tree's value, each test read as its
condition. -/
theorem Question.expressionOf_canonical :
    q.expressionOf seq cs = ((canonicalTree (q.written mode seq cs)).map Expr.render).getD "" ∧
      ∀ T, canonicalTree (q.written mode seq cs) = some T →
        ∀ (a : Answers) (k : Nat) (r : Rule), r.conditions = (q.written mode seq cs).map (·.1) →
          (r.conditions.map (·.clause)).dropLast.count .and ≤ k →
          (r.conditions.map (·.clause)).dropLast.count .or ≤ k →
          r.matches k a = .ok (T.valueOn (r.conditions.map (·.holds a))) :=
  ⟨q.expressionOf_eq_render hmode seq cs, fun _ hT a k _ hr hand hor =>
    q.matches_canonicalTree seq cs hT a k hr hand hor⟩

end written

/-- Three tests on a multiple-choice question, the first two joined by `and` and the last by
`or`, with a condition naming no option between them. -/
theorem Question.expressionOf_canonical_andThenOr :
    let q : Question := ⟨"q1", .multiple, "", [⟨"a1", "A"⟩, ⟨"a2", "B"⟩], none⟩
    let cs : List Condition := [⟨"c1", .and, .option (some "a1") (some .selected)⟩,
      ⟨"c2", .or, .option (some "gone") (some .selected)⟩,
      ⟨"c3", .or, .option (some "a2") (some .notSelected)⟩,
      ⟨"c4", .and, .count (some .lessOrEqual) (some 2)⟩]
    q.kind.selectionMode = some .multiple ∧
      (q.expressionOf 2 cs = ((canonicalTree (q.written .multiple 2 cs)).map Expr.render).getD "" ∧
        ∀ T, canonicalTree (q.written .multiple 2 cs) = some T →
          ∀ (a : Answers) (k : Nat) (r : Rule), r.conditions = (q.written .multiple 2 cs).map (·.1) →
            (r.conditions.map (·.clause)).dropLast.count .and ≤ k →
            (r.conditions.map (·.clause)).dropLast.count .or ≤ k →
            r.matches k a = .ok (T.valueOn (r.conditions.map (·.holds a)))) :=
  ⟨rfl, Question.expressionOf_canonical _ rfl 2 _⟩

end SurveyBranching
