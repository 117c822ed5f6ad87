import SurveyBranching.Proofs.Meaning
import SurveyBranching.Rule.Expression
import Mathlib.Data.List.SplitBy
/-!
# The canonical tree of written conditions

The conditions of a rule that are written as tests stand in a row, each joined to the next by
its clause. Read with `and` binding tighter than `or` and equal clauses grouping to the left,
the row is one tree: cut it into runs, the longest stretches in which every test but the last
is joined to the next by `and`; make each run an `and`-chain of its tests grouped to the left;
join the runs in an `or`-chain grouped to the left. This is the canonical tree of the
conditions. Writing the conditions gives its text (`Proofs/Writing.lean`), and this module
works out its words, its joins, its tests and its shape from the runs.

## Main definitions

* `Expr.prefixWords`: the words of a tree in prefix order, each test one word.
* `Expr.leftChain?`: trees joined by one clause, grouped to the left.
* `Question.written`: the conditions that are written, each with its test.
* `runs`, `runTree`, `canonicalTree`.

## Main statements

* `runs_cons_cons_of_and`, `runs_cons_cons_of_or`: how a run grows from the front.
* `prefixWords_canonicalTree`, `joins_canonicalTree`, `leaves_canonicalTree`,
  `orOverAnd_canonicalTree`: the canonical tree from its runs.
-/

namespace SurveyBranching

namespace Expr

/-- The words of a tree in prefix order, each test as one word: its text. -/
def prefixWords : Expr → List String
  | .test r s v => [(Expr.test r s v).render]
  | .logical c l r => c.word :: l.prefixWords ++ r.prefixWords

/-- Whether a tree is a single test. -/
def isTest : Expr → Bool
  | .test _ _ _ => true
  | .logical _ _ _ => false

/-- The trees of a list joined by `c`, the first with the second, that with the third, and so
on; none for no trees. -/
def leftChain? (c : Clause) : List Expr → Option Expr
  | [] => none
  | e :: es => some (es.foldl (.logical c) e)

theorem prefixWords_ne_nil (e : Expr) : e.prefixWords ≠ [] := by
  cases e <;> simp [prefixWords]

/-- The text of a tree is its prefix words with single spaces between them. -/
theorem render_eq_intercalate (e : Expr) : e.render = " ".intercalate e.prefixWords := by
  induction e with
  | test r s v => simp [prefixWords]
  | logical c l r ihl ihr =>
    have hl := prefixWords_ne_nil l
    have hr := prefixWords_ne_nil r
    rw [prefixWords, render, ihl, ihr,
      String.intercalate_append_of_ne_nil (List.cons_ne_nil _ _) hr,
      String.intercalate_cons_of_ne_nil hl]

theorem prefixWords_of_isTest {e : Expr} (h : e.isTest) : e.prefixWords = [e.render] := by
  cases e <;> simp_all [isTest, prefixWords]

theorem flatMap_prefixWords_of_isTest {es : List Expr} (h : ∀ e ∈ es, e.isTest) :
    es.flatMap prefixWords = es.map render := by
  induction es with
  | nil => rfl
  | cons e es ih =>
    simp [prefixWords_of_isTest (h e (by simp)), ih (fun e' he' => h e' (by simp [he']))]

theorem joins_of_isTest {e : Expr} (h : e.isTest) : e.joins = [] := by
  cases e <;> simp_all [isTest, joins]

theorem hasOr_of_isTest {e : Expr} (h : e.isTest) : e.hasOr = false := by
  cases e <;> simp_all [isTest, hasOr]

theorem orOverAnd_of_hasOr_false {e : Expr} (h : e.hasOr = false) : e.OrOverAnd := by
  cases e with
  | test r s v => trivial
  | logical c l r =>
    simp only [hasOr, Bool.or_eq_false_iff, beq_eq_false_iff_ne] at h
    cases c with
    | and => exact ⟨h.1.2, h.2⟩
    | or => exact absurd rfl h.1.1

/-! ## Chains grouped to the left -/

section leftChain

variable (c : Clause)

theorem prefixWords_foldl (e : Expr) (es : List Expr) :
    (es.foldl (.logical c) e).prefixWords =
      List.replicate es.length c.word ++ e.prefixWords ++ es.flatMap prefixWords := by
  induction es generalizing e with
  | nil => simp
  | cons e' es ih => simp [ih, prefixWords, List.replicate_succ']

theorem joins_foldl (e : Expr) (es : List Expr) :
    (es.foldl (.logical c) e).joins = e.joins ++ es.flatMap (fun e' => c :: e'.joins) := by
  induction es generalizing e with
  | nil => simp
  | cons e' es ih => simp [ih, joins]

theorem leaves_foldl (e : Expr) (es : List Expr) :
    (es.foldl (.logical c) e).leaves = e.leaves ++ es.flatMap leaves := by
  induction es generalizing e with
  | nil => simp
  | cons e' es ih => simp [ih, leaves]

end leftChain

theorem hasOr_foldl_and (e : Expr) (es : List Expr) :
    (es.foldl (.logical .and) e).hasOr = (e.hasOr || es.any hasOr) := by
  induction es generalizing e with
  | nil => simp
  | cons e' es ih => simp [ih, hasOr, Bool.or_assoc]

theorem orOverAnd_foldl_or {e : Expr} {es : List Expr} (he : e.OrOverAnd)
    (hes : ∀ e' ∈ es, e'.OrOverAnd) : (es.foldl (.logical .or) e).OrOverAnd := by
  induction es generalizing e with
  | nil => exact he
  | cons e' es ih =>
    exact ih ⟨he, hes e' (by simp)⟩ (fun e'' h => hes e'' (by simp [h]))

theorem length_leaves_of_isTest {e : Expr} (h : e.isTest) : e.leaves.length = 1 := by
  cases e <;> simp_all [isTest, leaves]

/-- Tests side by side have one leaf each. -/
theorem length_flatMap_leaves {α : Type} {p : List (α × Expr)} (hp : ∀ x ∈ p, x.2.isTest) :
    (p.flatMap (·.2.leaves)).length = p.length := by
  induction p with
  | nil => rfl
  | cons x p ih =>
    rw [List.flatMap_cons, List.length_append, ih fun y hy => hp y (List.mem_cons_of_mem x hy),
      length_leaves_of_isTest (hp x List.mem_cons_self), List.length_cons]
    omega

end Expr

/-! ## Runs -/

section splitBy

variable {α : Type} (R : α → α → Bool)

/-- The groups finished before the scan only go in front. -/
private theorem splitBy_loop_acc (l : List α) :
    ∀ (b : α) (g : List α) (acc : List (List α)),
      List.splitBy.loop R l b g acc = acc.reverse ++ List.splitBy.loop R l b g [] := by
  induction l with
  | nil => intro b g acc; simp [List.splitBy.loop]
  | cons a l ih =>
    intro b g acc
    simp only [List.splitBy.loop]
    split
    · exact ih a (b :: g) acc
    · rw [ih a [] (_ :: acc), ih a [] [_]]
      simp

/-- An element at the far end of the group being built ends up at the front of the first
group. -/
private theorem splitBy_loop_group (a : α) (l : List α) :
    ∀ (b : α) (g : List α),
      List.splitBy.loop R l b (g ++ [a]) [] = (List.splitBy.loop R l b g []).modifyHead (a :: ·) := by
  induction l with
  | nil => intro b g; simp [List.splitBy.loop]
  | cons c l ih =>
    intro b g
    simp only [List.splitBy.loop]
    split
    · exact ih c (b :: g)
    · rw [splitBy_loop_acc R l c [] [_], splitBy_loop_acc R l c [] [_]]
      simp

theorem splitBy_cons_cons (a b : α) (l : List α) :
    (a :: b :: l).splitBy R =
      if R a b then ((b :: l).splitBy R).modifyHead (a :: ·) else [a] :: (b :: l).splitBy R := by
  simp only [List.splitBy, List.splitBy.loop]
  split
  · next h => rw [if_pos h, ← splitBy_loop_group R a l b []]; rfl
  · next h =>
    rw [if_neg (by simp [h]), splitBy_loop_acc R l b [] [[a].reverse]]
    rfl

end splitBy

/-- The conditions that are written, in order, each with the test it writes. -/
def Question.written (q : Question) (mode : SelectionMode) (seq : UInt32) (cs : List Condition) :
    List (Condition × Expr) :=
  cs.filterMap fun c => (q.testExpr? mode seq c).map (c, ·)

/-- The runs of written tests: the longest stretches in which every condition but the last is
joined to the next by `and`. -/
def runs (p : List (Condition × Expr)) : List (List (Condition × Expr)) :=
  p.splitBy fun a _ => a.1.clause == .and

/-- The tree of a run: its tests joined by `and`, grouped to the left. -/
def runTree (run : List (Condition × Expr)) : Option Expr :=
  Expr.leftChain? .and (run.map (·.2))

/-- The canonical tree of written tests: the trees of their runs joined by `or`, grouped to the
left; none when nothing is written. -/
def canonicalTree (p : List (Condition × Expr)) : Option Expr :=
  Expr.leftChain? .or ((runs p).filterMap runTree)

/-- The words of a run in prefix order: an `and` for each test after the first, then the
tests. -/
def runWords (run : List (Condition × Expr)) : List String :=
  List.replicate run.tail.length "and" ++ run.map (·.2.render)

/-- The clauses between the tests of the runs: `and` inside a run and `or` between runs. -/
def runJoins : List (List (Condition × Expr)) → List Clause
  | [] => []
  | run :: rest =>
    List.replicate run.tail.length .and ++
      rest.flatMap fun run' => .or :: List.replicate run'.tail.length .and

theorem Question.isTest_of_testExpr? {q : Question} {mode : SelectionMode} {seq : UInt32}
    {c : Condition} {e : Expr} (h : q.testExpr? mode seq c = some e) : e.isTest := by
  unfold Question.testExpr? at h
  split at h
  · obtain ⟨o, -, rfl⟩ := Option.map_eq_some_iff.mp h
    rfl
  · cases h
    rfl
  · cases h

section written

variable {q : Question} {mode : SelectionMode} {seq : UInt32} {c : Condition}
  {cs : List Condition}

@[simp] theorem Question.written_nil : q.written mode seq [] = [] := rfl

theorem Question.written_cons_of_some {e : Expr} (h : q.testExpr? mode seq c = some e) :
    q.written mode seq (c :: cs) = (c, e) :: q.written mode seq cs := by
  simp [Question.written, h]

theorem Question.written_cons_of_none (h : q.testExpr? mode seq c = none) :
    q.written mode seq (c :: cs) = q.written mode seq cs := by
  simp [Question.written, h]

end written

theorem Question.isTest_of_mem_written {q : Question} {mode : SelectionMode} {seq : UInt32}
    {cs : List Condition} {x : Condition × Expr} (h : x ∈ q.written mode seq cs) : x.2.isTest := by
  obtain ⟨c, -, hc⟩ := List.mem_filterMap.mp h
  obtain ⟨e, he, rfl⟩ := Option.map_eq_some_iff.mp hc
  exact Question.isTest_of_testExpr? he

section runs

variable {x y : Condition × Expr} {p m : List (Condition × Expr)}

theorem runs_singleton : runs [x] = [[x]] := rfl

/-- A test joined to the next by `and` opens the run of the tests after it. -/
theorem runs_cons_cons_of_and (h : x.1.clause = .and) :
    runs (x :: y :: m) = (runs (y :: m)).modifyHead (x :: ·) := by
  simp [runs, splitBy_cons_cons, h]

/-- A test joined to the next by `or` is a run of its own. -/
theorem runs_cons_cons_of_or (h : x.1.clause = .or) :
    runs (x :: y :: m) = [x] :: runs (y :: m) := by
  simp [runs, splitBy_cons_cons, h]

theorem exists_runs_eq_cons (hp : p ≠ []) : ∃ run rest, runs p = run :: rest :=
  List.exists_cons_of_ne_nil (List.splitBy_ne_nil.mpr hp)

theorem ne_nil_of_mem_runs {run : List (Condition × Expr)} (h : run ∈ runs p) : run ≠ [] :=
  List.ne_nil_of_mem_splitBy h

theorem flatten_runs (p : List (Condition × Expr)) : (runs p).flatten = p :=
  List.flatten_splitBy _ p

/-- The joins of the runs are the clauses of the written conditions, the last one apart. -/
theorem runJoins_runs (p : List (Condition × Expr)) :
    runJoins (runs p) = (p.map (·.1.clause)).dropLast := by
  induction p with
  | nil => rfl
  | cons x m ih =>
    cases m with
    | nil => simp [runs_singleton, runJoins]
    | cons y m =>
      obtain ⟨run, rest, hrun⟩ := exists_runs_eq_cons (p := y :: m) (by simp)
      have hne : run ≠ [] := ne_nil_of_mem_runs (hrun ▸ List.mem_cons_self)
      rw [hrun, List.map_cons] at ih
      rw [List.map_cons, List.map_cons, List.dropLast_cons_cons, ← ih]
      cases hc : x.1.clause with
      | and =>
        obtain ⟨z, zs, rfl⟩ := List.exists_cons_of_ne_nil hne
        simp [runs_cons_cons_of_and hc, hrun, runJoins, List.replicate_succ]
      | or =>
        simp [runs_cons_cons_of_or hc, hrun, runJoins]

end runs

/-! ## The canonical tree from its runs -/

section runTree

variable {run : List (Condition × Expr)} {t : Expr}

/-- Tests joined by one clause leave that clause between each two of them. -/
theorem flatMap_joins_of_isTest (c : Clause) {es : List Expr} (h : ∀ e ∈ es, e.isTest) :
    es.flatMap (fun e => c :: e.joins) = List.replicate es.length c := by
  induction es with
  | nil => rfl
  | cons e es ih =>
    simp [Expr.joins_of_isTest (h e (by simp)), ih (fun e' he' => h e' (by simp [he'])),
      List.replicate_succ]

theorem runTree_isSome (h : run ≠ []) : ∃ t, runTree run = some t := by
  obtain ⟨x, xs, rfl⟩ := List.exists_cons_of_ne_nil h
  exact ⟨_, rfl⟩

theorem prefixWords_runTree (ht : runTree run = some t) (htests : ∀ x ∈ run, x.2.isTest) :
    t.prefixWords = runWords run := by
  obtain _ | ⟨x, xs⟩ := run
  · cases ht
  simp only [runTree, List.map_cons, Expr.leftChain?, Option.some.injEq] at ht
  subst ht
  have hx : x.2.prefixWords = [x.2.render] := Expr.prefixWords_of_isTest (htests x (by simp))
  have hxs : (xs.map (·.2)).flatMap Expr.prefixWords = xs.map (·.2.render) := by
    rw [Expr.flatMap_prefixWords_of_isTest (fun e he => by
      obtain ⟨y, hy, rfl⟩ := List.mem_map.mp he
      exact htests y (by simp [hy]))]
    simp
  simp [Expr.prefixWords_foldl, hx, hxs, runWords, Clause.word]

theorem joins_runTree (ht : runTree run = some t) (htests : ∀ x ∈ run, x.2.isTest) :
    t.joins = List.replicate run.tail.length .and := by
  obtain _ | ⟨x, xs⟩ := run
  · cases ht
  simp only [runTree, List.map_cons, Expr.leftChain?, Option.some.injEq] at ht
  subst ht
  rw [Expr.joins_foldl, Expr.joins_of_isTest (htests x (by simp)),
    flatMap_joins_of_isTest .and (fun e he => by
      obtain ⟨y, hy, rfl⟩ := List.mem_map.mp he
      exact htests y (by simp [hy]))]
  simp

theorem hasOr_runTree (ht : runTree run = some t) (htests : ∀ x ∈ run, x.2.isTest) :
    t.hasOr = false := by
  obtain _ | ⟨x, xs⟩ := run
  · cases ht
  simp only [runTree, List.map_cons, Expr.leftChain?, Option.some.injEq] at ht
  subst ht
  simp only [Expr.hasOr_foldl_and, Expr.hasOr_of_isTest (htests x (by simp)), Bool.false_or,
    List.any_map, List.any_eq_false]
  intro y hy
  simpa using Expr.hasOr_of_isTest (htests y (by simp [hy]))

theorem leaves_runTree (ht : runTree run = some t) : t.leaves = run.flatMap (·.2.leaves) := by
  obtain _ | ⟨x, xs⟩ := run
  · cases ht
  simp only [runTree, List.map_cons, Expr.leftChain?, Option.some.injEq] at ht
  subst ht
  simp [Expr.leaves_foldl, List.flatMap_map]

end runTree

section canonicalTree

private theorem flatMap_flatten_eq {α β : Type} (L : List (List α)) (f : α → List β) :
    L.flatten.flatMap f = L.flatMap (·.flatMap f) := by
  induction L <;> simp [*]

variable {p : List (Condition × Expr)} {T : Expr}

/-- A property of run trees, read off their runs, carries over to the trees of all runs. -/
theorem flatMap_filterMap_runTree {β : Type} (f : Expr → List β)
    (g : List (Condition × Expr) → List β)
    (hfg : ∀ run t, runTree run = some t → (∀ x ∈ run, x.2.isTest) → f t = g run)
    (L : List (List (Condition × Expr))) (hL : ∀ run ∈ L, run ≠ [] ∧ ∀ x ∈ run, x.2.isTest) :
    (L.filterMap runTree).flatMap f = L.flatMap g := by
  induction L with
  | nil => rfl
  | cons run L ih =>
    obtain ⟨hne, htests⟩ := hL run (by simp)
    obtain ⟨t, ht⟩ := runTree_isSome hne
    rw [List.filterMap_cons_some ht, List.flatMap_cons, List.flatMap_cons, hfg run t ht htests,
      ih (fun run' h => hL run' (by simp [h]))]

theorem length_filterMap_runTree (L : List (List (Condition × Expr)))
    (hL : ∀ run ∈ L, run ≠ []) : (L.filterMap runTree).length = L.length := by
  induction L with
  | nil => rfl
  | cons run L ih =>
    obtain ⟨t, ht⟩ := runTree_isSome (hL run (by simp))
    rw [List.filterMap_cons_some ht, List.length_cons, List.length_cons,
      ih (fun run' h => hL run' (by simp [h]))]

/-- Every run is a non-empty stretch of tests of `p`. -/
theorem runs_wellFormed (hp : ∀ x ∈ p, x.2.isTest) :
    ∀ run ∈ runs p, run ≠ [] ∧ ∀ x ∈ run, x.2.isTest := by
  intro run hrun
  refine ⟨ne_nil_of_mem_runs hrun, fun x hx => hp x ?_⟩
  rw [← flatten_runs p]
  exact List.mem_flatten.mpr ⟨run, hrun, hx⟩

theorem exists_canonicalTree (hp : p ≠ []) : ∃ T, canonicalTree p = some T := by
  obtain ⟨run, rest, hruns⟩ := exists_runs_eq_cons hp
  obtain ⟨t, ht⟩ := runTree_isSome (ne_nil_of_mem_runs (hruns ▸ List.mem_cons_self))
  exact ⟨_, by rw [canonicalTree, hruns, List.filterMap_cons_some ht]; rfl⟩

/-- Only no test at all has no canonical tree. -/
theorem canonicalTree_eq_none : canonicalTree p = none ↔ p = [] := by
  constructor
  · intro hT
    by_contra hp
    obtain ⟨T, hT'⟩ := exists_canonicalTree hp
    rw [hT] at hT'
    cases hT'
  · rintro rfl
    rfl

/-- The canonical tree is the tree of the first run, joined by `or` to the trees of the
others. -/
theorem canonicalTree_eq (hT : canonicalTree p = some T) :
    ∃ run rest t, runs p = run :: rest ∧ runTree run = some t ∧
      T = (rest.filterMap runTree).foldl (.logical .or) t := by
  unfold canonicalTree at hT
  rcases hruns : runs p with _ | ⟨run, rest⟩
  · rw [hruns] at hT; cases hT
  rw [hruns] at hT
  obtain ⟨t, ht⟩ := runTree_isSome (ne_nil_of_mem_runs (hruns ▸ List.mem_cons_self))
  rw [List.filterMap_cons_some ht] at hT
  exact ⟨run, rest, t, rfl, ht, (Option.some.inj hT).symm⟩

/-- **The prefix words of the canonical tree**: an `or` for each run after the first, then
the words of the runs. -/
theorem prefixWords_canonicalTree (hp : ∀ x ∈ p, x.2.isTest) (hT : canonicalTree p = some T) :
    T.prefixWords = List.replicate ((runs p).length - 1) "or" ++ (runs p).flatMap runWords := by
  obtain ⟨run, rest, t, hruns, ht, rfl⟩ := canonicalTree_eq hT
  have hwf := runs_wellFormed hp
  rw [hruns] at hwf
  rw [Expr.prefixWords_foldl, length_filterMap_runTree rest (fun r h => (hwf r (by simp [h])).1),
    flatMap_filterMap_runTree _ runWords (fun r t' h hts => prefixWords_runTree h hts) rest
      (fun r h => hwf r (by simp [h])),
    prefixWords_runTree ht (hwf run (by simp)).2, hruns]
  simp [Clause.word]

/-- **The joins of the canonical tree are the clauses of the written conditions**, the last
one apart. -/
theorem joins_canonicalTree (hp : ∀ x ∈ p, x.2.isTest) (hT : canonicalTree p = some T) :
    T.joins = (p.map (·.1.clause)).dropLast := by
  obtain ⟨run, rest, t, hruns, ht, rfl⟩ := canonicalTree_eq hT
  have hwf := runs_wellFormed hp
  rw [hruns] at hwf
  rw [← runJoins_runs, hruns, Expr.joins_foldl, joins_runTree ht (hwf run (by simp)).2,
    flatMap_filterMap_runTree _ (fun r => .or :: List.replicate r.tail.length .and)
      (fun r t' h hts => by rw [joins_runTree h hts]) rest (fun r h => hwf r (by simp [h]))]
  rfl

/-- The tests of the canonical tree are the written tests, in order. -/
theorem leaves_canonicalTree (hp : ∀ x ∈ p, x.2.isTest) (hT : canonicalTree p = some T) :
    T.leaves = p.flatMap (·.2.leaves) := by
  obtain ⟨run, rest, t, hruns, ht, rfl⟩ := canonicalTree_eq hT
  have hwf := runs_wellFormed hp
  rw [hruns] at hwf
  have hp' : p = (run :: rest).flatten := by rw [← hruns, flatten_runs]
  rw [Expr.leaves_foldl, leaves_runTree ht,
    flatMap_filterMap_runTree _ (·.flatMap (·.2.leaves)) (fun r t' h _ => leaves_runTree h) rest
      (fun r h => hwf r (by simp [h]))]
  conv_rhs => rw [hp']
  simp [flatMap_flatten_eq]

/-- The canonical tree has one test for each written test. -/
theorem length_leaves_canonicalTree (hp : ∀ x ∈ p, x.2.isTest) (hT : canonicalTree p = some T) :
    T.leaves.length = p.length := by
  rw [leaves_canonicalTree hp hT, Expr.length_flatMap_leaves hp]

/-- The canonical tree is an `or` of `and`s. -/
theorem orOverAnd_canonicalTree (hp : ∀ x ∈ p, x.2.isTest) (hT : canonicalTree p = some T) :
    T.OrOverAnd := by
  obtain ⟨run, rest, t, hruns, ht, rfl⟩ := canonicalTree_eq hT
  have hwf := runs_wellFormed hp
  rw [hruns] at hwf
  refine Expr.orOverAnd_foldl_or
    (Expr.orOverAnd_of_hasOr_false (hasOr_runTree ht (hwf run (by simp)).2)) ?_
  intro t' ht'
  obtain ⟨r, hr, hrt⟩ := List.mem_filterMap.mp ht'
  exact Expr.orOverAnd_of_hasOr_false (hasOr_runTree hrt (hwf r (by simp [hr])).2)

end canonicalTree

end SurveyBranching
