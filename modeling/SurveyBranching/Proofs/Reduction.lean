import SurveyBranching.Rule.Eval
/-!
# What the reduction of a rule computes

`Rule.matches` lays a rule's conditions out as truth values and clauses in turn and collapses
the sequence, first around `and`, then around `or`, each phase under a cap on its number of
joins. The sequence starts and ends with a value and alternates, and a phase keeps it so: the
first clause it looks for stands between two values, and their join is a value. So no clause
ever lacks an operand, and the sequence can be read as a chain (`Chain.items`) on which a phase
is one pass from left to right (`Chain.joinFrom`).

Without the cap a phase is a plain function of the chain, `Chain.collapse`; with it, a phase
succeeds exactly when the chain holds no more of its clause than the cap allows, and then gives
the same chain. Two phases in this order read the chain with `and` binding tighter than `or`:
the disjunction, over the runs of values joined by `and`, of their conjunctions
(`Chain.sumOfProducts`).

## Main definitions

* `Chain.joinFrom`, `Chain.join`, `Chain.reduce`: the reduction read on the chain.
* `Chain.collapse`, `Chain.sumOfProducts`: a phase without its cap, and the value of a chain.

## Main statements

* `Item.reduce_items`: the reduction of a chain's sequence is the reduction of the chain.
* `Chain.join_eq`: a phase is its uncapped collapse, or fails at the cap.
* `Chain.reduce_eq`: the reduction is `sumOfProducts` when neither clause occurs more often than
  the cap, and fails at the cap otherwise.
* `Rule.matches_cons_eq`: the reduction of a rule with conditions.
-/

namespace SurveyBranching

namespace Chain

/-- Joins, left to right, every pair of neighbours around the clause `op`, the first value
being `current` and `count` joins having been made; fails at the join past `limit`. -/
def joinFrom (op : Clause) (limit : Nat) (count : Nat) (current : Bool) :
    List (Clause × Bool) → Except ReductionError Chain
  | [] => .ok (current, [])
  | (c, v) :: rest =>
    if c = op then
      if count ≥ limit then .error (.iterationCapExceeded limit)
      else joinFrom op limit (count + 1) (op.combine current v) rest
    else
      match joinFrom op limit count v rest with
      | .error e => .error e
      | .ok (h, t) => .ok (current, (c, h) :: t)

/-- One phase: joins every pair around `op`, at most `limit` times. -/
def join (op : Clause) (limit : Nat) (ch : Chain) : Except ReductionError Chain :=
  joinFrom op limit 0 ch.1 ch.2

/-- The truth value of a chain: the `and` phase, then the `or` phase, then one value must be
left. -/
def reduce (limit : Nat) (ch : Chain) : Except ReductionError Bool := do
  let ch ← ch.join .and limit
  let ch ← ch.join .or limit
  match ch with
  | (v, []) => pure v
  | (_, rest) => throw (.notSingle (2 * rest.length + 1))

/-- How many of the clauses of a chain's tail are `c`. -/
def clauseCount (c : Clause) (l : List (Clause × Bool)) : Nat :=
  (l.map (·.1)).count c

/-- One phase without its cap: joins, left to right, every pair of neighbours around `op`. -/
def collapse (op : Clause) : Bool → List (Clause × Bool) → Chain
  | cur, [] => (cur, [])
  | cur, (c, v) :: rest =>
    if c = op then collapse op (op.combine cur v) rest
    else
      let (h, t) := collapse op v rest
      (cur, (c, h) :: t)

/-- The value of a chain with `and` binding tighter than `or`; `p` is the conjunction of the
run of values read so far. -/
def sumOfProducts : Bool → List (Clause × Bool) → Bool
  | p, [] => p
  | p, (.and, v) :: rest => sumOfProducts (p && v) rest
  | p, (.or, v) :: rest => p || sumOfProducts v rest

@[simp] theorem clauseCount_nil (c : Clause) : clauseCount c [] = 0 := rfl

@[simp] theorem clauseCount_cons (c c' : Clause) (v : Bool) (l : List (Clause × Bool)) :
    clauseCount c ((c', v) :: l) = clauseCount c l + if c' = c then 1 else 0 := by
  simp [clauseCount, List.count_cons]

@[simp] theorem clauseCount_append (c : Clause) (l l' : List (Clause × Bool)) :
    clauseCount c (l ++ l') = clauseCount c l + clauseCount c l' := by
  simp [clauseCount]

/-! ## One phase -/

/-- A phase that has made `count` joins, no more than its cap, succeeds exactly when the joins
still to make fit under the cap. -/
theorem joinFrom_eq (op : Clause) (limit : Nat) (l : List (Clause × Bool)) :
    ∀ (count : Nat) (cur : Bool), count ≤ limit →
      joinFrom op limit count cur l =
        if count + clauseCount op l ≤ limit then .ok (collapse op cur l)
        else .error (.iterationCapExceeded limit) := by
  induction l with
  | nil =>
    intro count cur hc
    simp [joinFrom, collapse, hc]
  | cons p rest ih =>
    intro count cur hc
    obtain ⟨c, v⟩ := p
    by_cases hop : c = op
    · subst hop
      by_cases hfull : count ≥ limit
      · simp only [joinFrom, ↓reduceIte, if_pos hfull, clauseCount_cons]
        rw [if_neg (by omega)]
      · simp only [joinFrom, ↓reduceIte, if_neg hfull, collapse]
        rw [ih (count + 1) _ (by omega)]
        simp only [clauseCount_cons, ↓reduceIte]
        congr 1
        simp only [eq_iff_iff]
        omega
    · simp only [joinFrom, if_neg hop, collapse, ih count v hc, clauseCount_cons, Nat.add_zero]
      by_cases hfit : count + clauseCount op rest ≤ limit <;> simp [hfit]

/-- **A phase is its uncapped collapse when the chain holds at most `limit` of its clause, and
fails at the cap otherwise.** -/
theorem join_eq (op : Clause) (limit : Nat) (ch : Chain) :
    ch.join op limit =
      if clauseCount op ch.2 ≤ limit then .ok (collapse op ch.1 ch.2)
      else .error (.iterationCapExceeded limit) := by
  rw [join, joinFrom_eq op limit ch.2 0 ch.1 (Nat.zero_le _), Nat.zero_add]

/-! ## Two phases -/

/-- After the `and` phase only `or` is left between values. -/
theorem collapse_and_clauses (p : Bool) (l : List (Clause × Bool)) :
    ∀ c ∈ (collapse .and p l).2.map (·.1), c = .or := by
  induction l generalizing p with
  | nil => simp [collapse]
  | cons q rest ih =>
    obtain ⟨c, v⟩ := q
    cases c with
    | and => simpa [collapse, Clause.combine] using ih (p && v)
    | or =>
      intro c hc
      simp only [collapse, reduceCtorEq, if_false, List.map_cons, List.mem_cons] at hc
      rcases hc with hc | hc
      · exact hc
      · exact ih v c hc

/-- The `and` phase keeps every `or`. -/
theorem clauseCount_or_collapse_and (p : Bool) (l : List (Clause × Bool)) :
    clauseCount .or (collapse .and p l).2 = clauseCount .or l := by
  induction l generalizing p with
  | nil => rfl
  | cons q rest ih =>
    obtain ⟨c, v⟩ := q
    cases c with
    | and => simpa [collapse, Clause.combine] using ih (p && v)
    | or => simp [collapse, ih v]

/-- Where only `or` is left, the `or` phase leaves one value: the disjunction of all. -/
theorem collapse_or_of_forall_or (x : Bool) (l : List (Clause × Bool))
    (hl : ∀ c ∈ l.map (·.1), c = .or) :
    collapse .or x l = (x || l.any (·.2), []) := by
  induction l generalizing x with
  | nil => simp [collapse]
  | cons q rest ih =>
    obtain ⟨c, v⟩ := q
    have hc : c = .or := hl c (by simp)
    subst hc
    rw [collapse, if_pos rfl, ih _ (fun c hc => hl c (by simp [hc]))]
    simp [Clause.combine, Bool.or_assoc]

/-- **The two phases in turn leave the single value `sumOfProducts`.** -/
theorem collapse_or_collapse_and (p : Bool) (l : List (Clause × Bool)) :
    collapse .or (collapse .and p l).1 (collapse .and p l).2 = (sumOfProducts p l, []) := by
  induction l generalizing p with
  | nil => rfl
  | cons q rest ih =>
    obtain ⟨c, v⟩ := q
    cases c with
    | and => simpa [collapse, Clause.combine, sumOfProducts] using ih (p && v)
    | or =>
      -- The `or` before `v` survives the `and` phase; the rest collapses as `ih` says, from any
      -- first value since only `or` is left in it.
      have hrest := collapse_or_of_forall_or (collapse .and v rest).1 _
        (collapse_and_clauses v rest)
      rw [ih v] at hrest
      simp only [collapse, reduceCtorEq, if_false, if_pos, sumOfProducts]
      rw [collapse_or_of_forall_or _ _ (collapse_and_clauses v rest)]
      simp only [Prod.mk.injEq, and_true] at hrest ⊢
      simp [Clause.combine, Bool.or_assoc, hrest]

/-- **The reduction of a chain.** It fails at the cap when either clause occurs more often
than the cap allows, and is otherwise the chain's value with `and` before `or`. -/
theorem reduce_eq (limit : Nat) (ch : Chain) :
    ch.reduce limit =
      if clauseCount .and ch.2 ≤ limit ∧ clauseCount .or ch.2 ≤ limit then
        .ok (sumOfProducts ch.1 ch.2)
      else .error (.iterationCapExceeded limit) := by
  obtain ⟨p, l⟩ := ch
  have hor := clauseCount_or_collapse_and p l
  have hval := collapse_or_collapse_and p l
  by_cases hand : clauseCount .and l ≤ limit
  · by_cases hor' : clauseCount .or l ≤ limit
    · have hor'' : clauseCount .or (collapse .and p l).2 ≤ limit := hor ▸ hor'
      simp [reduce, join_eq, hand, hor'', hval, bind, Except.bind, pure, Except.pure, hor']
    · have hor'' : ¬ clauseCount .or (collapse .and p l).2 ≤ limit := hor ▸ hor'
      simp [reduce, join_eq, hand, hor'', bind, Except.bind, hor']
  · simp [reduce, join_eq, hand, bind, Except.bind]

/-! ## Reading the value -/

/-- A run joined by `and` only is the conjunction of its values. -/
theorem sumOfProducts_of_forall_and (p : Bool) (l : List (Clause × Bool))
    (hl : ∀ c ∈ l.map (·.1), c = .and) :
    sumOfProducts p l = (p && l.all (·.2)) := by
  induction l generalizing p with
  | nil => simp [sumOfProducts]
  | cons q rest ih =>
    obtain ⟨c, v⟩ := q
    have hc : c = .and := hl c (by simp)
    subst hc
    rw [sumOfProducts, ih _ (fun c hc => hl c (by simp [hc]))]
    simp [Bool.and_assoc]

/-- An `or` splits the value: the part before it or the part after it. -/
theorem sumOfProducts_append_or (p v : Bool) (l l' : List (Clause × Bool)) :
    sumOfProducts p (l ++ (.or, v) :: l') = (sumOfProducts p l || sumOfProducts v l') := by
  induction l generalizing p with
  | nil => rfl
  | cons q rest ih =>
    obtain ⟨c, w⟩ := q
    cases c with
    | and => simpa [sumOfProducts] using ih (p && w)
    | or => simp [sumOfProducts, ih w, Bool.or_assoc]

end Chain

/-! ## The sequence of a chain -/

namespace Item

/-- The search for a clause goes past items that are not it. -/
theorem findIdx?_append {op : Clause} {pre : List Item} (hpre : ∀ x ∈ pre, x ≠ .clause op)
    (l : List Item) :
    (pre ++ l).findIdx? (· == .clause op) =
      (l.findIdx? (· == .clause op)).map (· + pre.length) := by
  induction pre with
  | nil => simp
  | cons x pre ih =>
    have hx : (x == .clause op) = false := by simpa using hpre x List.mem_cons_self
    rw [List.cons_append, List.findIdx?_cons, hx, ih fun y hy => hpre y (List.mem_cons_of_mem x hy),
      Option.map_map]
    simp [Function.comp_def, Nat.add_assoc]

theorem length_items (ch : Chain) : ch.items.length = 2 * ch.2.length + 1 := by
  obtain ⟨v, l⟩ := ch
  induction l with
  | nil => rfl
  | cons p l ih => simp_all [Chain.items]; omega

/-- **One join of a phase on the sequence of a chain.** When the first clause of the chain is
`op`, the phase stops at the cap, or replaces that clause and the values on both sides of it by
their join and goes on. -/
theorem collapse_append_items_cons (op : Clause) (limit count : Nat) {pre : List Item}
    (hpre : ∀ x ∈ pre, x ≠ .clause op) (v w : Bool) (rest : List (Clause × Bool)) :
    collapse op limit count (pre ++ Chain.items (v, (op, w) :: rest)) =
      if count ≥ limit then .error (.iterationCapExceeded limit)
      else collapse op limit (count + 1) (pre ++ Chain.items (op.combine v w, rest)) := by
  -- The first `op` is the one after `v`.
  have hfind : (pre ++ Chain.items (v, (op, w) :: rest)).findIdx? (· == .clause op) =
      some (pre.length + 1) := by
    rw [findIdx?_append hpre]
    simp [Chain.items, List.findIdx?_cons, Nat.add_comm]
  rw [collapse, hfind]
  dsimp only
  by_cases hfull : count ≥ limit
  · rw [if_pos hfull, if_pos hfull]
  have hfit : 0 < pre.length + 1 ∧
      pre.length + 1 + 1 < (pre ++ Chain.items (v, (op, w) :: rest)).length := by
    simp [Chain.items]
    omega
  -- The neighbours of the clause are `v` and `w`; their join takes the place of all three.
  have hleft : (pre ++ Chain.items (v, (op, w) :: rest))[pre.length] = .value v := by
    simp [Chain.items]
  have hright : (pre ++ Chain.items (v, (op, w) :: rest))[pre.length + 1 + 1] = .value w := by
    rw [List.getElem_append_right (by omega)]
    simp [Chain.items, show pre.length + 1 + 1 - pre.length = 2 by omega]
  have hjoin : (pre ++ Chain.items (v, (op, w) :: rest)).take pre.length ++
      .value (op.combine v w) ::
        (pre ++ Chain.items (v, (op, w) :: rest)).drop (pre.length + 1 + 2) =
      pre ++ Chain.items (op.combine v w, rest) := by
    simp [Chain.items, List.drop_append, show pre.length + 1 + 2 - pre.length = 3 by omega]
    omega
  rw [if_neg hfull, if_neg hfull, dif_pos hfit]
  simp only [List.get_eq_getElem, Nat.add_sub_cancel, hleft, hright]
  rw [hjoin]

/-- **A phase on the sequence of a chain is the phase on the chain**, after any items that are
not its clause: each join on the sequence is a join on the chain, and the sequence stays that
of a chain. -/
theorem collapse_append_items (op : Clause) (limit : Nat) (l : List (Clause × Bool)) :
    ∀ (count : Nat) (v : Bool) (pre : List Item), (∀ x ∈ pre, x ≠ .clause op) →
      collapse op limit count (pre ++ Chain.items (v, l)) =
        (Chain.joinFrom op limit count v l).map (pre ++ ·.items) := by
  induction l with
  | nil =>
    intro count v pre hpre
    rw [collapse, findIdx?_append hpre]
    rfl
  | cons p rest ih =>
    intro count v pre hpre
    obtain ⟨c, w⟩ := p
    by_cases hop : c = op
    · subst hop
      rw [collapse_append_items_cons c limit count hpre, Chain.joinFrom, if_pos rfl]
      by_cases hfull : count ≥ limit
      · rw [if_pos hfull, if_pos hfull]
        rfl
      · rw [if_neg hfull, if_neg hfull, ih _ _ _ hpre]
    · -- The search goes past `v` and `c` to the chain after them.
      have hpre' : ∀ x ∈ pre ++ [.value v, .clause c], x ≠ .clause op := by
        intro x hx
        simp only [List.mem_append, List.mem_cons, List.not_mem_nil, or_false] at hx
        rcases hx with hx | rfl | rfl
        · exact hpre x hx
        · simp
        · simpa using hop
      have hsplit : pre ++ Chain.items (v, (c, w) :: rest) =
          (pre ++ [.value v, .clause c]) ++ Chain.items (w, rest) := by
        simp [Chain.items]
      rw [hsplit, ih count w _ hpre']
      simp only [Chain.joinFrom, if_neg hop]
      cases Chain.joinFrom op limit count w rest with
      | error e => rfl
      | ok ch => simp [Except.map, Chain.items]

/-- The empty sequence has nothing to join. -/
theorem collapse_nil (op : Clause) (limit count : Nat) : collapse op limit count [] = .ok [] := by
  rw [collapse]
  rfl

/-- A phase on the sequence of a chain is the phase on the chain. -/
theorem collapse_items (op : Clause) (limit : Nat) (ch : Chain) :
    collapse op limit 0 ch.items = (ch.join op limit).map Chain.items := by
  simpa [Chain.join] using collapse_append_items op limit ch.2 0 ch.1 [] (by simp)

/-- **The reduction of a chain's sequence is the reduction of the chain.** In particular no
clause of the sequence ever lacks an operand. -/
theorem reduce_items (limit : Nat) (ch : Chain) : reduce limit ch.items = ch.reduce limit := by
  rw [reduce, Chain.reduce, collapse_items]
  cases ch.join .and limit with
  | error e => rfl
  | ok ch₁ =>
    dsimp only [Except.map, bind, Except.bind]
    rw [collapse_items]
    cases ch₁.join .or limit with
    | error e => rfl
    | ok ch₂ =>
      obtain ⟨v, _ | ⟨p, rest⟩⟩ := ch₂
      · rfl
      · -- More than one value is left, and the sequence has their clauses between them.
        have hlen := length_items (v, p :: rest)
        simp only [Except.map, Chain.items, List.flatMap_cons, List.cons_append] at hlen ⊢
        rw [hlen]

end Item

/-- A rule reduces the sequence of the chain of its conditions; a rule with no conditions
reduces the empty sequence, which leaves no value. -/
theorem Rule.matches_eq_chain (limit : Nat) (a : Answers) (r : Rule) :
    r.matches limit a = match r.chain? a with
      | none => .error (.notSingle 0)
      | some ch => ch.reduce limit := by
  rw [Rule.matches, Rule.sequence]
  cases r.chain? a with
  | none =>
    show Item.reduce limit [] = _
    rw [Item.reduce, Item.collapse_nil]
    dsimp only [bind, Except.bind]
    rw [Item.collapse_nil]
    rfl
  | some ch => exact Item.reduce_items limit ch

/-- The chain a rule with conditions reduces: the value of the first condition, then each
clause but the last with the value of the condition after it. -/
theorem Rule.matches_cons (limit : Nat) (a : Answers) {r : Rule} {c : Condition}
    {cs : List Condition} (h : r.conditions = c :: cs) :
    r.matches limit a =
      Chain.reduce limit (c.holds a, List.zip ((c :: cs).map (·.clause)) (cs.map (·.holds a))) := by
  simp [Rule.matches_eq_chain, Rule.chain?, h]

/-- Pairing clauses with the values after them leaves the last clause out. -/
theorem zip_dropLast {α β : Type} (l : List α) (vs : List β) (h : l.length = vs.length + 1) :
    List.zip l vs = List.zip l.dropLast vs := by
  induction vs generalizing l with
  | nil => obtain ⟨x, rfl⟩ := List.length_eq_one_iff.mp h; rfl
  | cons v vs ih =>
    obtain ⟨x, l', rfl⟩ := List.exists_cons_of_length_pos (l := l) (by simp at h; omega)
    obtain ⟨y, l'', rfl⟩ := List.exists_cons_of_length_pos (l := l') (by simp at h; omega)
    rw [List.dropLast_cons_cons, List.zip_cons_cons, List.zip_cons_cons,
      ih (y :: l'') (by simpa using h)]

/-- **The reduction of a rule with conditions**: with at most `limit` of each clause among the
clauses of its conditions, the last one apart, it is the value of its conditions with `and`
before `or`; with more of either, it fails at the cap. -/
theorem Rule.matches_cons_eq (limit : Nat) (a : Answers) {r : Rule} {c : Condition}
    {cs : List Condition} (h : r.conditions = c :: cs) :
    r.matches limit a =
      if ((c :: cs).map (·.clause)).dropLast.count .and ≤ limit ∧
          ((c :: cs).map (·.clause)).dropLast.count .or ≤ limit then
        .ok (Chain.sumOfProducts (c.holds a)
          (List.zip ((c :: cs).map (·.clause)).dropLast (cs.map (·.holds a))))
      else .error (.iterationCapExceeded limit) := by
  have hlen : ((c :: cs).map (·.clause)).length = (cs.map (·.holds a)).length + 1 := by simp
  have hcount : ∀ op, Chain.clauseCount op
      (List.zip ((c :: cs).map (·.clause)).dropLast (cs.map (·.holds a))) =
        ((c :: cs).map (·.clause)).dropLast.count op := by
    intro op
    rw [Chain.clauseCount, List.map_fst_zip (by simp)]
  rw [Rule.matches_cons limit a h, Chain.reduce_eq, zip_dropLast _ _ hlen, hcount, hcount]

/-- A rule without conditions reduces to nothing. -/
theorem Rule.matches_nil (limit : Nat) (a : Answers) {r : Rule} (h : r.conditions = []) :
    r.matches limit a = .error (.notSingle 0) := by
  simp [Rule.matches_eq_chain, Rule.chain?, h]

end SurveyBranching
