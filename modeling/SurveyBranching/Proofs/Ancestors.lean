import SurveyBranching.Proofs.Meaning
import SurveyBranching.Expr.Conditions
/-!
# The clause two tests share

Reading an expression as conditions walks its tree from the root, numbers the logical nodes in
preorder and gives each test the list of the nodes above it (`Expr.walk`). The clause after a
test is that of the last node its list shares with the list of the next test, nodes compared by
number (`sharedClause`). Inside the walk of a logical node every list starts with that node, and
the walk of its right side numbers its nodes after all those of its left side; so the lists of
two consecutive tests agree down to the node whose left side ends with the first test and whose
right side starts with the second, and part there. That node is the lowest common ancestor of
the two tests, and its clause is the one that stands between them in the tree's joins.

## Main definitions

* `Expr.ways`, `Expr.nodeAt?`: the way from the root to each test, and the node a way leads to.
* `Expr.LowestCommonAncestor`: the way to the lowest node above two tests.

## Main statements

* `Expr.zipWith_sharedClause_walk`: the clauses of the walk are the tree's joins.
* `Question.testsOf_eq`: the tests of a tree are read in order, each with the join after it.
* `Expr.lowestCommonAncestor_joins`: each join is the clause of the lowest common ancestor of
  the tests on either side of it.
-/

namespace SurveyBranching

/-! ## Pairs of neighbours -/

/-- The pairs of neighbours of two lists put together: those of the first, the pair across the
seam, and those of the second. -/
theorem zipWith_tail_append {α β : Type} (f : α → α → β) {A B : List α} (hA : A ≠ [])
    (hB : B ≠ []) :
    List.zipWith f (A ++ B) (A ++ B).tail =
      List.zipWith f A A.tail ++ f (A.getLast hA) (B.head hB) :: List.zipWith f B B.tail := by
  induction A with
  | nil => exact absurd rfl hA
  | cons a A ih =>
    cases A with
    | nil =>
      obtain ⟨b, B, rfl⟩ := List.exists_cons_of_ne_nil hB
      rfl
    | cons a' A =>
      have ih' := ih (List.cons_ne_nil a' A)
      simp only [List.cons_append, List.tail_cons, List.zipWith_cons_cons] at ih' ⊢
      rw [ih', List.getLast_cons (List.cons_ne_nil a' A)]

/-! ## The clause two paths share -/

/-- Two paths of ancestors that agree down to the node `x` and part below it agree on exactly the
stretch down to `x`. -/
theorem takeWhile_zip_parting {a b : List Ancestor}
    (hpart : ∀ y ∈ a.head?, ∀ z ∈ b.head?, y.1 ≠ z.1) (Q : List Ancestor) (x : Ancestor) :
    ((Q ++ x :: a).zip (Q ++ x :: b)).takeWhile (fun p => p.1.1 == p.2.1) =
      (Q ++ [x]).zip (Q ++ [x]) := by
  induction Q with
  | nil =>
    have hstop : (a.zip b).takeWhile (fun p => p.1.1 == p.2.1) = [] := by
      cases a with
      | nil => rfl
      | cons y a =>
        cases b with
        | nil => rfl
        | cons z b =>
          have hyz : (y.1 == z.1) = false := by simpa using hpart y rfl z rfl
          simp [hyz]
    simp [hstop]
  | cons y Q ih => simp [ih]

/-- **Two paths that agree down to the node `x` and part below it share the clause of `x`.** -/
theorem sharedClause_parting {a b : List Ancestor}
    (hpart : ∀ y ∈ a.head?, ∀ z ∈ b.head?, y.1 ≠ z.1) (Q : List Ancestor) (x : Ancestor) :
    sharedClause (Q ++ x :: a) (Q ++ x :: b) = x.2 := by
  unfold sharedClause
  rw [takeWhile_zip_parting hpart, List.zip_append rfl]
  simp

/-! ## The walk -/

namespace Expr

theorem walk_logical (c : Clause) (l r : Expr) (next : Nat) (path : List Ancestor) :
    (logical c l r).walk next path =
      ((l.walk (next + 1) (path ++ [(next, c)])).1 ++
          (r.walk (l.walk (next + 1) (path ++ [(next, c)])).2 (path ++ [(next, c)])).1,
        (r.walk (l.walk (next + 1) (path ++ [(next, c)])).2 (path ++ [(next, c)])).2) :=
  rfl

/-- The walk below a path is the walk below the root, each list of ancestors after the path. -/
theorem walk_path (e : Expr) :
    ∀ (next : Nat) (path : List Ancestor),
      e.walk next path =
        ((e.walk next []).1.map fun x => (path ++ x.1, x.2), (e.walk next []).2) := by
  induction e with
  | test r s v => intro next path; simp [walk]
  | logical c l r ihl ihr =>
    intro next path
    rw [walk_logical c l r next path, walk_logical c l r next [], List.nil_append,
      ihl (next + 1) (path ++ [(next, c)]), ihl (next + 1) [(next, c)]]
    dsimp only
    rw [ihr _ (path ++ [(next, c)]), ihr _ [(next, c)]]
    simp [Function.comp_def]

/-- The walk gives the tests from left to right. -/
theorem map_snd_walk (e : Expr) :
    ∀ (next : Nat) (path : List Ancestor), (e.walk next path).1.map (·.2) = e.leaves := by
  induction e with
  | test r s v => intro next path; rfl
  | logical c l r ihl ihr =>
    intro next path
    rw [walk_logical, List.map_append, ihl, ihr]
    rfl

theorem length_walk (e : Expr) (next : Nat) (path : List Ancestor) :
    (e.walk next path).1.length = e.leaves.length := by
  rw [← map_snd_walk e next path, List.length_map]

/-- Every tree has a test, so its walk is not empty. -/
theorem walk_ne_nil (e : Expr) (next : Nat) (path : List Ancestor) : (e.walk next path).1 ≠ [] := by
  rw [← List.length_pos_iff, length_walk]
  exact length_leaves_pos e

/-- The numbers the walk gives start at `next`; a logical node takes one. -/
theorem le_walk_snd (e : Expr) :
    ∀ (next : Nat) (path : List Ancestor), next ≤ (e.walk next path).2 := by
  induction e with
  | test r s v => intro next path; exact Nat.le_refl _
  | logical c l r ihl ihr =>
    intro next path
    have hl := ihl (next + 1) (path ++ [(next, c)])
    have hr := ihr (l.walk (next + 1) (path ++ [(next, c)])).2 (path ++ [(next, c)])
    rw [walk_logical]
    omega

/-- Below a logical node, every test has that node first among its ancestors. -/
theorem mem_walk_logical {c : Clause} {l r : Expr} {next : Nat} {x}
    (hx : x ∈ ((logical c l r).walk next []).1) : ∃ rest, x.1 = (next, c) :: rest := by
  rw [walk_logical, List.nil_append, l.walk_path, r.walk_path] at hx
  simp only [List.mem_append, List.mem_map] at hx
  rcases hx with ⟨y, -, rfl⟩ | ⟨y, -, rfl⟩ <;> exact ⟨_, rfl⟩

/-- What a test has below the ancestors it shares with every test of the tree: nothing for a
tree that is a test, the root with its number first for a logical node. -/
theorem head?_walk (e : Expr) (next : Nat) :
    ∀ x ∈ (e.walk next []).1, ∀ y ∈ x.1.head?, y.1 = next := by
  cases e with
  | test r s v => simp [walk]
  | logical c l r =>
    intro x hx y hy
    obtain ⟨rest, hrest⟩ := mem_walk_logical hx
    rw [hrest] at hy
    cases hy
    rfl

/-- A logical tree's own number is below every number its walk gives. -/
theorem lt_walk_snd_of_head? (e : Expr) (next : Nat) {x} (hx : x ∈ (e.walk next []).1)
    {y : Ancestor} (hy : y ∈ x.1.head?) : next < (e.walk next []).2 := by
  cases e with
  | test r s v => simp [walk] at hx; rw [hx] at hy; cases hy
  | logical c l r =>
    have := le_walk_snd r (l.walk (next + 1) [(next, c)]).2 [(next, c)]
    have := le_walk_snd l (next + 1) [(next, c)]
    rw [walk_logical, List.nil_append]
    omega

/-- The lists of ancestors of a walk below a path, each after the path. -/
theorem map_fst_walk (e : Expr) (next : Nat) (path : List Ancestor) :
    (e.walk next path).1.map (·.1) = (e.walk next []).1.map (path ++ ·.1) := by
  rw [walk_path, List.map_map]
  rfl

theorem walk_snd_path (e : Expr) (next : Nat) (path : List Ancestor) :
    (e.walk next path).2 = (e.walk next []).2 := by
  rw [walk_path]

/-- **The clauses the walk gives between consecutive tests are the tree's joins**, below any
path and from any first number. -/
theorem zipWith_sharedClause_walk (e : Expr) :
    ∀ (next : Nat) (path : List Ancestor),
      List.zipWith sharedClause ((e.walk next path).1.map (·.1))
        ((e.walk next path).1.map (·.1)).tail = e.joins := by
  induction e with
  | test r s v => intro next path; rfl
  | logical c l r ihl ihr =>
    intro next path
    have hA : (l.walk (next + 1) (path ++ [(next, c)])).1.map (·.1) ≠ [] :=
      mt List.map_eq_nil_iff.mp (walk_ne_nil l _ _)
    have hB : (r.walk (l.walk (next + 1) (path ++ [(next, c)])).2 (path ++ [(next, c)])).1.map
        (·.1) ≠ [] :=
      mt List.map_eq_nil_iff.mp (walk_ne_nil r _ _)
    rw [walk_logical, List.map_append, zipWith_tail_append sharedClause hA hB, ihl, ihr, joins]
    congr 2
    -- The last test on the left and the first on the right part below the node: their next
    -- ancestors, if any, are the roots of the two sides, numbered `next + 1` and after all the
    -- nodes of the left side.
    generalize hnext : (l.walk (next + 1) (path ++ [(next, c)])).2 = next' at hB ⊢
    have hA' := walk_ne_nil l (next + 1) []
    have hB' := walk_ne_nil r next' []
    simp only [map_fst_walk l, map_fst_walk r, List.getLast_map, List.head_map]
    rw [List.append_assoc, List.append_assoc, List.singleton_append, List.singleton_append,
      sharedClause_parting]
    intro y hy z hz
    have hly := head?_walk l (next + 1) _ (List.getLast_mem hA') y hy
    have hrz := head?_walk r next' _ (List.head_mem hB') z hz
    have hlt := lt_walk_snd_of_head? l (next + 1) (List.getLast_mem hA') hy
    rw [walk_snd_path] at hnext
    omega

/-! ## The lowest common ancestor -/

/-- The way from the root to each test, from left to right: `false` for each step into a left
side, `true` for each step into a right side. -/
def ways : Expr → List (List Bool)
  | .test _ _ _ => [[]]
  | .logical _ l r => l.ways.map (false :: ·) ++ r.ways.map (true :: ·)

/-- The node a way from the root leads to. -/
def nodeAt? : Expr → List Bool → Option Expr
  | e, [] => some e
  | .test _ _ _, _ :: _ => none
  | .logical _ l _, false :: w => l.nodeAt? w
  | .logical _ _ r, true :: w => r.nodeAt? w

/-- `w` is the way to the lowest common ancestor of the tests `i` and `j`: it leads to a node
above both, and the way to any node above both is a prefix of it. -/
def LowestCommonAncestor (e : Expr) (i j : Nat) (w : List Bool) : Prop :=
  ∃ u v, e.ways[i]? = some u ∧ e.ways[j]? = some v ∧ w <+: u ∧ w <+: v ∧
    ∀ w', w' <+: u → w' <+: v → w' <+: w

theorem length_ways (e : Expr) : e.ways.length = e.leaves.length := by
  induction e with
  | test r s v => rfl
  | logical c l r ihl ihr => simp [ways, leaves, ihl, ihr]

/-- The nodes above two tests of one side are the node of the tree, then those above both in
that side. -/
theorem prefix_cons_of_common {b : Bool} {u v w : List Bool}
    (hlow : ∀ w', w' <+: u → w' <+: v → w' <+: w) :
    ∀ w', w' <+: b :: u → w' <+: b :: v → w' <+: b :: w := by
  intro w' hu hv
  rcases List.prefix_cons_iff.mp hu with rfl | ⟨t, rfl, htu⟩
  · exact List.nil_prefix
  · exact List.cons_prefix_cons.mpr ⟨rfl, hlow t htu (List.cons_prefix_cons.mp hv).2⟩

/-- A test of each side has only the node itself above both. -/
theorem eq_nil_of_prefix_parting {u v w : List Bool} (hu : w <+: false :: u)
    (hv : w <+: true :: v) : w = [] := by
  rcases List.prefix_cons_iff.mp hu with h | ⟨t, rfl, -⟩
  · exact h
  · simp at hv

variable {c : Clause} {l r : Expr}

/-- Two tests of the left side have their lowest common ancestor there. -/
theorem LowestCommonAncestor.left {i j : Nat} {w : List Bool} (h : l.LowestCommonAncestor i j w)
    (hi : i < l.ways.length) (hj : j < l.ways.length) :
    (logical c l r).LowestCommonAncestor i j (false :: w) := by
  obtain ⟨u, v, hu, hv, hwu, hwv, hlow⟩ := h
  refine ⟨false :: u, false :: v, ?_, ?_, List.cons_prefix_cons.mpr ⟨rfl, hwu⟩,
    List.cons_prefix_cons.mpr ⟨rfl, hwv⟩, prefix_cons_of_common hlow⟩
  · rw [ways, List.getElem?_append_left (by simpa using hi), List.getElem?_map, hu]; rfl
  · rw [ways, List.getElem?_append_left (by simpa using hj), List.getElem?_map, hv]; rfl

/-- Two tests of the right side have their lowest common ancestor there. -/
theorem LowestCommonAncestor.right {i j : Nat} {w : List Bool} (h : r.LowestCommonAncestor i j w) :
    (logical c l r).LowestCommonAncestor (l.ways.length + i) (l.ways.length + j) (true :: w) := by
  obtain ⟨u, v, hu, hv, hwu, hwv, hlow⟩ := h
  refine ⟨true :: u, true :: v, ?_, ?_, List.cons_prefix_cons.mpr ⟨rfl, hwu⟩,
    List.cons_prefix_cons.mpr ⟨rfl, hwv⟩, prefix_cons_of_common hlow⟩
  · rw [ways, List.getElem?_append_right (by simp), List.length_map, Nat.add_sub_cancel_left,
      List.getElem?_map, hu]; rfl
  · rw [ways, List.getElem?_append_right (by simp), List.length_map, Nat.add_sub_cancel_left,
      List.getElem?_map, hv]; rfl

/-- The last test of the left side and the first of the right side have the node itself as
their lowest common ancestor. -/
theorem lowestCommonAncestor_seam :
    (logical c l r).LowestCommonAncestor (l.ways.length - 1) l.ways.length [] := by
  have hl : 0 < l.ways.length := by rw [length_ways]; exact length_leaves_pos l
  have hr : 0 < r.ways.length := by rw [length_ways]; exact length_leaves_pos r
  obtain ⟨u, hu⟩ : ∃ u, l.ways[l.ways.length - 1]? = some u :=
    ⟨_, List.getElem?_eq_getElem (by omega)⟩
  obtain ⟨v, hv⟩ : ∃ v, r.ways[0]? = some v := ⟨_, List.getElem?_eq_getElem hr⟩
  refine ⟨false :: u, true :: v, ?_, ?_, List.nil_prefix, List.nil_prefix,
    fun w' hu' hv' => eq_nil_of_prefix_parting hu' hv' ▸ List.nil_prefix⟩
  · rw [ways, List.getElem?_append_left (by rw [List.length_map]; omega), List.getElem?_map, hu]
    rfl
  · rw [ways, List.getElem?_append_right (by simp), List.length_map, Nat.sub_self,
      List.getElem?_map, hv]; rfl

/-- **Each join of a tree is the clause of the lowest common ancestor of the tests on either
side of it.** -/
theorem lowestCommonAncestor_joins (e : Expr) :
    ∀ (i : Nat) (c : Clause), e.joins[i]? = some c →
      ∃ w l r, e.LowestCommonAncestor i (i + 1) w ∧ e.nodeAt? w = some (.logical c l r) := by
  induction e with
  | test r s v => intro i c h; simp [joins] at h
  | logical c' l r ihl ihr =>
    intro i c h
    have hlen : l.joins.length + 1 = l.ways.length := by rw [length_ways, length_joins]
    rw [joins] at h
    -- The join is one of the left side's, the node's own, or one of the right side's.
    rcases Nat.lt_trichotomy i l.joins.length with hi | rfl | hi
    · rw [List.getElem?_append_left hi] at h
      obtain ⟨w, l', r', hw, hnode⟩ := ihl i c h
      exact ⟨false :: w, l', r', hw.left (by omega) (by omega), hnode⟩
    · rw [List.getElem?_append_right (Nat.le_refl _), Nat.sub_self] at h
      cases h
      refine ⟨[], l, r, ?_, rfl⟩
      have hseam := lowestCommonAncestor_seam (c := c') (l := l) (r := r)
      rwa [← hlen, Nat.add_sub_cancel] at hseam
    · rw [List.getElem?_append_right (by omega)] at h
      obtain ⟨j, rfl⟩ : ∃ j, i = l.joins.length + 1 + j := ⟨i - (l.joins.length + 1), by omega⟩
      rw [show l.joins.length + 1 + j - l.joins.length = j + 1 by omega,
        List.getElem?_cons_succ] at h
      obtain ⟨w, l', r', hw, hnode⟩ := ihr j c h
      refine ⟨true :: w, l', r', ?_, hnode⟩
      have hright := hw.right (c := c') (l := l)
      rwa [← hlen, ← Nat.add_assoc] at hright

end Expr

/-- **The tests of a tree are read from left to right, each with the join after it, and the
last with `and`.** -/
theorem Question.testsOf_eq (q : Question) (mode : SelectionMode) (e : Expr) :
    q.testsOf mode e = (e.leaves.mapM (q.testOf mode)).map (List.zip (e.joins ++ [.and])) := by
  unfold Question.testsOf
  dsimp only
  rw [Expr.zipWith_sharedClause_walk, ← Expr.map_snd_walk e 0 [], List.mapM_map]
  rfl

end SurveyBranching
