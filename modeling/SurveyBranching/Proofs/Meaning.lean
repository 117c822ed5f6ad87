import SurveyBranching.Proofs.Reduction
import SurveyBranching.Expr.Basic
/-!
# The truth value of a branching expression

A tree is read as a formula: each test stands for a truth value, an `and` node for the
conjunction of its sides and an `or` node for their disjunction. The tests take their values by
position, from left to right, which is how the tests of an expression line up with the
conditions it is read into.

A tree flattens to the chain of its tests' values with the clauses between them
(`Expr.joins`). Reducing that chain with `and` before `or` gives the tree's value back when no
`or` node stands below an `and` node (`Expr.OrOverAnd`): such a tree is an `or` of `and`s of
tests, and its `and`s are exactly the runs of the chain.

## Main definitions

* `Expr.valueOn`: the value of a tree whose tests take given values.
* `Expr.hasOr`, `Expr.OrOverAnd`: where the `or` nodes of a tree stand.
* `Expr.nodeCount`: the number of logical nodes with a given clause.

## Main statements

* `Expr.sumOfProducts_joins`: the chain of an `or`-over-`and` tree has the tree's value.
* `Rule.matches_of_joins`: a rule whose conditions are joined as such a tree's tests reduces
  to the tree's value.
-/

namespace SurveyBranching.Expr

/-- The value of a tree whose tests take the values `vs`, from left to right; a test with no
value left is false. -/
def valueOn : Expr → List Bool → Bool
  | .test _ _ _, vs => vs.headD false
  | .logical c l r, vs => c.combine (l.valueOn vs) (r.valueOn (vs.drop l.leaves.length))

/-- Whether a tree has an `or` node. -/
def hasOr : Expr → Bool
  | .test _ _ _ => false
  | .logical c l r => c == .or || l.hasOr || r.hasOr

/-- No `or` node of the tree has an `and` node above it. -/
def OrOverAnd : Expr → Prop
  | .test _ _ _ => True
  | .logical .or l r => l.OrOverAnd ∧ r.OrOverAnd
  | .logical .and l r => l.hasOr = false ∧ r.hasOr = false

instance decidableOrOverAnd : (e : Expr) → Decidable e.OrOverAnd
  | .test _ _ _ => isTrue trivial
  | .logical .or l r =>
    haveI := decidableOrOverAnd l
    haveI := decidableOrOverAnd r
    inferInstanceAs (Decidable (_ ∧ _))
  | .logical .and _ _ => inferInstanceAs (Decidable (_ ∧ _))

/-- The number of logical nodes of a tree with clause `c`. -/
def nodeCount (c : Clause) : Expr → Nat
  | .test _ _ _ => 0
  | .logical c' l r => l.nodeCount c + r.nodeCount c + if c' = c then 1 else 0

/-! ## Leaves and joins -/

theorem length_leaves_pos (e : Expr) : 0 < e.leaves.length := by
  induction e with
  | test r s v => simp [leaves]
  | logical c l r ihl _ => simp only [leaves, List.length_append]; omega

/-- One clause stands between each two consecutive tests. -/
theorem length_joins (e : Expr) : e.joins.length + 1 = e.leaves.length := by
  induction e with
  | test r s v => simp [joins, leaves]
  | logical c l r ihl ihr =>
    simp only [joins, leaves, List.length_append, List.length_cons]
    omega

/-- The joins hold one clause for each logical node. -/
theorem count_joins (c : Clause) (e : Expr) : e.joins.count c = e.nodeCount c := by
  induction e with
  | test r s v => simp [joins, nodeCount]
  | logical c' l r ihl ihr =>
    simp only [joins, nodeCount, List.count_append, List.count_cons, ihl, ihr, beq_iff_eq]
    omega

/-! ## Values -/

/-- Values past the tree's tests do not matter. -/
theorem valueOn_append (e : Expr) (vs ws : List Bool) (h : e.leaves.length ≤ vs.length) :
    e.valueOn (vs ++ ws) = e.valueOn vs := by
  induction e generalizing vs with
  | test r s v =>
    simp only [leaves, List.length_singleton] at h
    obtain ⟨x, xs, rfl⟩ := List.exists_cons_of_length_pos (l := vs) (by omega)
    rfl
  | logical c l r ihl ihr =>
    simp only [leaves, List.length_append] at h
    have hdrop : (vs ++ ws).drop l.leaves.length = vs.drop l.leaves.length ++ ws :=
      List.drop_append_of_le_length (by omega)
    simp only [valueOn, ihl vs (by omega), hdrop,
      ihr (vs.drop l.leaves.length) (by simp only [List.length_drop]; omega)]

/-- With no `or` node, every clause between tests is `and`. -/
theorem joins_of_hasOr_false {e : Expr} (h : e.hasOr = false) : ∀ c ∈ e.joins, c = .and := by
  induction e with
  | test r s v => simp [joins]
  | logical c l r ihl ihr =>
    simp only [hasOr, Bool.or_eq_false_iff, beq_eq_false_iff_ne] at h
    obtain ⟨⟨hc, hl⟩, hr⟩ := h
    have hc : c = .and := by cases c <;> simp_all
    intro c' hc'
    simp only [joins, List.mem_append, List.mem_cons] at hc'
    rcases hc' with h' | h' | h'
    · exact ihl hl c' h'
    · exact h'.trans hc
    · exact ihr hr c' h'

/-- With no `or` node, a tree is the conjunction of its tests. -/
theorem valueOn_of_hasOr_false {e : Expr} (h : e.hasOr = false) (vs : List Bool)
    (hvs : vs.length = e.leaves.length) : e.valueOn vs = vs.all id := by
  induction e generalizing vs with
  | test r s v =>
    obtain ⟨x, rfl⟩ := List.length_eq_one_iff.mp (by simpa [leaves] using hvs)
    simp [valueOn]
  | logical c l r ihl ihr =>
    simp only [hasOr, Bool.or_eq_false_iff, beq_eq_false_iff_ne] at h
    obtain ⟨⟨hc, hl⟩, hr⟩ := h
    have hc : c = .and := by cases c <;> simp_all
    subst hc
    simp only [leaves, List.length_append] at hvs
    -- The values split where the left side's tests end.
    have hsplit := List.take_append_drop l.leaves.length vs
    have htake : (vs.take l.leaves.length).length = l.leaves.length := by
      simp only [List.length_take]; omega
    have hdrop : (vs.drop l.leaves.length).length = r.leaves.length := by
      simp only [List.length_drop]; omega
    rw [valueOn, ← hsplit, valueOn_append l _ _ (by omega), List.drop_left' htake,
      ihl hl _ htake, ihr hr _ hdrop, List.all_append]
    rfl

/-- The chain of a tree with no `or` node is the conjunction of its tests. -/
theorem sumOfProducts_joins_of_hasOr_false {e : Expr} (h : e.hasOr = false) (v : Bool)
    (ws : List Bool) (hlen : ws.length + 1 = e.leaves.length) :
    Chain.sumOfProducts v (List.zip e.joins ws) = e.valueOn (v :: ws) := by
  have hjoins := length_joins e
  have hsnd : (e.joins.zip ws).map (·.2) = ws := List.map_snd_zip (by omega)
  rw [Chain.sumOfProducts_of_forall_and]
  · rw [valueOn_of_hasOr_false h _ (by simp [hlen])]
    calc (v && (e.joins.zip ws).all (·.2))
        = (v && ((e.joins.zip ws).map (·.2)).all id) := by simp [List.all_map]
      _ = (v :: ws).all id := by rw [hsnd]; simp
  · rw [List.map_fst_zip (by omega)]
    exact joins_of_hasOr_false h

/-- **The chain of an `or`-over-`and` tree reduces to the tree's value.** The values are those
of the tests, the first one apart; the clauses are the tree's joins. -/
theorem sumOfProducts_joins {e : Expr} (he : e.OrOverAnd) (v : Bool) (ws : List Bool)
    (hlen : ws.length + 1 = e.leaves.length) :
    Chain.sumOfProducts v (List.zip e.joins ws) = e.valueOn (v :: ws) := by
  induction e generalizing v ws with
  | test r s x => simp [joins, valueOn, Chain.sumOfProducts]
  | logical c l r ihl ihr =>
    cases c with
    | and =>
      exact sumOfProducts_joins_of_hasOr_false (by simp [hasOr, he.1, he.2]) v ws hlen
    | or =>
      obtain ⟨hl, hr⟩ := he
      have hl' := length_joins l
      have hr' := length_joins r
      simp only [leaves, List.length_append] at hlen
      -- The values after the first split at the first test of the right side.
      obtain ⟨v', ws₂, hdrop⟩ := List.exists_cons_of_length_pos
        (l := ws.drop l.joins.length) (by simp only [List.length_drop]; omega)
      have hsplit : ws = ws.take l.joins.length ++ v' :: ws₂ := by
        rw [← hdrop, List.take_append_drop]
      have htake : (ws.take l.joins.length).length = l.joins.length := by
        simp only [List.length_take]; omega
      have hws₂ : ws₂.length + 1 = r.leaves.length := by
        have := congrArg List.length hdrop
        simp only [List.length_drop, List.length_cons] at this
        omega
      rw [hsplit, joins, List.zip_append htake.symm, List.zip_cons_cons,
        Chain.sumOfProducts_append_or, ihl hl v _ (by omega), ihr hr v' ws₂ hws₂, valueOn,
        ← List.cons_append, valueOn_append l _ _ (by simp; omega),
        List.drop_left' (by simp; omega)]
      rfl

end SurveyBranching.Expr

namespace SurveyBranching

/-- **A rule whose clauses are the joins of an `or`-over-`and` tree reduces to the tree's
value**, each test read as the condition in its place, when neither clause occurs more often
in the tree than the cap. -/
theorem Rule.matches_of_joins {e : Expr} (he : e.OrOverAnd) {r : Rule}
    (hclauses : (r.conditions.map (·.clause)).dropLast = e.joins)
    (hlen : r.conditions.length = e.leaves.length) {k : Nat} (hand : e.nodeCount .and ≤ k)
    (hor : e.nodeCount .or ≤ k) (a : Answers) :
    r.matches k a = .ok (e.valueOn (r.conditions.map (·.holds a))) := by
  obtain ⟨c, cs, hcs⟩ := List.exists_cons_of_length_pos
    (hlen ▸ Expr.length_leaves_pos e : 0 < r.conditions.length)
  rw [hcs] at hclauses hlen
  rw [Rule.matches_cons_eq k a hcs, hclauses, Expr.count_joins, Expr.count_joins,
    if_pos ⟨hand, hor⟩, Expr.sumOfProducts_joins he _ _ (by simpa using hlen), hcs]
  rfl

end SurveyBranching
