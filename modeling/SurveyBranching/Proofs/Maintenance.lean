import Mathlib.Data.List.Forall2
import SurveyBranching.Survey.Maintain
/-!
# Maintenance clears exactly what does not fit

A survey is valid when every rule fits its place: its destination names the survey's kind of
target and, if it names a target, one that rules of its question may jump to; its option
checks name options of the question; its counts lie in the range the question's options
allow. Maintenance makes every survey valid, and it does so by clearing only: it may give a
destination the survey's kind, and it may drop a target, an option id or a count, and nothing
else changes. A survey is left as it is exactly when it already fits, so maintaining twice is
maintaining once.

The engine counts options in 32 bits, so for a question of `2^32` options or more it takes the
count as `2^32 - 1`. Maintenance then clears a `greater` count of `2^32 - 1`, which the range
for the true number of options allows: the surveys it leaves alone are those that fit the
capped count, and only for questions of fewer than `2^32` options is that validity itself.

## Main definitions

* `CountAllowed`: the counts a condition may name for a question with `n` options.
* `Destination.Fits`, `Condition.Fits`, `Rule.Fits`, `Question.Fits`, `Survey.Fits`: fitting,
  with the option count as a parameter; `Survey.Valid` counts the options themselves.
* `Survey.ClearsTo`: a survey that differs from another only by cleared fields.

## Main statements

* `Survey.maintain_valid`: maintenance makes a survey valid, clearing only.
* `Survey.maintain_eq_self_iff`: maintenance leaves a survey alone exactly when it fits, and
  maintaining twice is maintaining once.
-/

namespace SurveyBranching

/-! ## What fits -/

/-- The counts a condition may name when its question has `n` options: `0` to `n - 1` for
`greater` and `1` to `n` for `less`, both empty when there are no options, and `0` to `n` for
any other comparison or none. -/
def CountAllowed (n : Nat) : Option CountComparison → Nat → Prop
  | some .greater, k => k < n
  | some .less, k => 1 ≤ k ∧ k ≤ n
  | _, k => k ≤ n

instance CountAllowed.decidable :
    (n : Nat) → (cmp : Option CountComparison) → (k : Nat) → Decidable (CountAllowed n cmp k)
  | _, some .greater, _ => inferInstanceAs (Decidable (_ < _))
  | _, some .less, _ => inferInstanceAs (Decidable (_ ∧ _))
  | _, none, _ => inferInstanceAs (Decidable (_ ≤ _))
  | _, some .equal, _ => inferInstanceAs (Decidable (_ ≤ _))
  | _, some .notEqual, _ => inferInstanceAs (Decidable (_ ≤ _))
  | _, some .greaterOrEqual, _ => inferInstanceAs (Decidable (_ ≤ _))
  | _, some .lessOrEqual, _ => inferInstanceAs (Decidable (_ ≤ _))

/-- A range allowed for fewer options is allowed for more. -/
theorem CountAllowed.mono {m n : Nat} (hmn : m ≤ n) {cmp : Option CountComparison} {k : Nat}
    (h : CountAllowed m cmp k) : CountAllowed n cmp k := by
  rcases cmp with _ | ⟨_ | _ | _ | _ | _ | _⟩ <;> simp only [CountAllowed] at h ⊢ <;> omega

/-- The engine's range check is the allowed range for the capped option count. -/
theorem Question.allowsCount_iff (q : Question) (cmp : Option CountComparison) (k : Nat) :
    q.allowsCount cmp k = true ↔ CountAllowed q.optionCount cmp k := by
  unfold Question.allowsCount countBounds
  rcases cmp with _ | ⟨_ | _ | _ | _ | _ | _⟩
  case some.greater | some.less =>
    -- Only these two ranges can be empty: when the question has no options.
    by_cases h : 1 ≤ q.optionCount <;> simp [CountAllowed, h] <;> omega
  all_goals simp [CountAllowed]

/-- A destination fits when it names the survey's kind of target and, if it names a target,
an allowed one. -/
def Destination.Fits (kind : TargetKind) (allowed : List String) (d : Destination) : Prop :=
  d.kind = some kind ∧ ∀ t ∈ d.target, t ∈ allowed

/-- A condition fits a question with these option ids and `n` options when the option it
names is one of them and the count it names is allowed. -/
def Condition.Fits (ids : List String) (n : Nat) (c : Condition) : Prop :=
  match c.test with
  | .option oid _ => ∀ o ∈ oid, o ∈ ids
  | .count cmp count => ∀ k ∈ count, CountAllowed n cmp k.toNat
  | .empty => True

/-- A rule fits when its destination and all its conditions do. -/
def Rule.Fits (kind : TargetKind) (allowed ids : List String) (n : Nat) (r : Rule) : Prop :=
  r.destination.Fits kind allowed ∧ ∀ c ∈ r.conditions, c.Fits ids n

/-- A question fits when all its rules do, its options counted as `n`. -/
def Question.Fits (n : Nat) (kind : TargetKind) (allowed : List String) (q : Question) : Prop :=
  ∀ rs ∈ q.rules, ∀ r ∈ rs.rules, r.Fits kind allowed q.optionIds n

/-- The ids of the places a rule of the question with this id may jump to. -/
def Survey.allowedIds (s : Survey) (qid : String) : List String :=
  (s.allowedDestinations qid).map (·.id)

/-- Every question of the survey fits, its options counted by `count`. -/
def Survey.Fits (count : Question → Nat) (s : Survey) : Prop :=
  ∀ q ∈ s.questions, q.Fits (count q) s.targetKind (s.allowedIds q.id)

/-- **A valid survey**: every rule fits, counts checked against the number of options. -/
def Survey.Valid (s : Survey) : Prop :=
  s.Fits (·.options.length)

instance Destination.decidableFits (kind : TargetKind) (allowed : List String) (d : Destination) :
    Decidable (d.Fits kind allowed) :=
  inferInstanceAs (Decidable (_ ∧ ∀ t ∈ d.target, t ∈ allowed))

instance Condition.decidableFits (ids : List String) (n : Nat) :
    (c : Condition) → Decidable (c.Fits ids n)
  | ⟨_, _, .option oid _⟩ => inferInstanceAs (Decidable (∀ o ∈ oid, o ∈ ids))
  | ⟨_, _, .count cmp k⟩ =>
    inferInstanceAs (Decidable (∀ k' ∈ k, CountAllowed n cmp k'.toNat))
  | ⟨_, _, .empty⟩ => inferInstanceAs (Decidable True)

instance Rule.decidableFits (kind : TargetKind) (allowed ids : List String) (n : Nat) (r : Rule) :
    Decidable (r.Fits kind allowed ids n) :=
  inferInstanceAs (Decidable (_ ∧ ∀ c ∈ r.conditions, c.Fits ids n))

instance Question.decidableFits (n : Nat) (kind : TargetKind) (allowed : List String)
    (q : Question) : Decidable (q.Fits n kind allowed) :=
  inferInstanceAs
    (Decidable (∀ rs ∈ q.rules, ∀ r ∈ rs.rules, r.Fits kind allowed q.optionIds n))

instance Survey.decidableFits (count : Question → Nat) (s : Survey) : Decidable (s.Fits count) :=
  inferInstanceAs
    (Decidable (∀ q ∈ s.questions, q.Fits (count q) s.targetKind (s.allowedIds q.id)))

instance Survey.decidableValid (s : Survey) : Decidable s.Valid :=
  inferInstanceAs (Decidable (s.Fits _))

/-- A condition that fits a smaller option count fits a larger one. -/
theorem Condition.Fits.mono {ids : List String} {m n : Nat} (hmn : m ≤ n) {c : Condition}
    (h : c.Fits ids m) : c.Fits ids n := by
  obtain ⟨_, _, test⟩ := c
  cases test with
  | count cmp count => exact fun k hk => (h k hk).mono hmn
  | option | empty => exact h

/-- The engine never counts more options than there are. -/
theorem Question.optionCount_le (q : Question) : q.optionCount ≤ q.options.length :=
  Nat.min_le_left _ _

/-- Fitting a smaller option count is fitting a larger one. -/
theorem Survey.Fits.mono {count count' : Question → Nat} {s : Survey}
    (hle : ∀ q ∈ s.questions, count q ≤ count' q) (h : s.Fits count) : s.Fits count' := by
  intro q hq rs hrs r hr
  obtain ⟨hd, hc⟩ := h q hq rs hrs r hr
  exact ⟨hd, fun c hcmem => (hc c hcmem).mono (hle q hq)⟩

/-! ## Maintenance at each level -/

theorem option_filter_eq_self_iff {α : Type} {p : α → Bool} {o : Option α} :
    o.filter p = o ↔ ∀ a ∈ o, p a := by
  cases o <;> simp [Option.filter_some]

/-- Mapping leaves a list alone exactly when it leaves each member alone. -/
theorem list_map_eq_self_iff {α : Type} {f : α → α} {l : List α} :
    l.map f = l ↔ ∀ a ∈ l, f a = a := by
  induction l with
  | nil => simp
  | cons a l ih => simp [ih]

theorem Destination.maintain_eq_self_iff {kind : TargetKind} {allowed : List String}
    {d : Destination} : d.maintain kind allowed = d ↔ d.Fits kind allowed := by
  obtain ⟨dk, dt⟩ := d
  unfold Destination.maintain Destination.Fits
  by_cases hk : dk = some kind
  · subst hk
    simp [option_filter_eq_self_iff]
  · -- A destination of the wrong kind is changed whatever its target.
    have hk' : some kind ≠ dk := fun h => hk h.symm
    simp [hk, hk']

theorem Condition.maintain_eq_self_iff {q : Question} {c : Condition} :
    c.maintain q = c ↔ c.Fits q.optionIds q.optionCount := by
  obtain ⟨id, clause, test⟩ := c
  cases test with
  | empty => simp [Condition.maintain, Condition.Fits]
  | option oid check =>
    simp [Condition.maintain, Condition.Fits, option_filter_eq_self_iff]
  | count cmp k =>
    simp [Condition.maintain, Condition.Fits, option_filter_eq_self_iff, Question.allowsCount_iff]

theorem Rule.maintain_eq_self_iff {q : Question} {kind : TargetKind} {allowed : List String}
    {r : Rule} :
    r.maintain q kind allowed = r ↔ r.Fits kind allowed q.optionIds q.optionCount := by
  obtain ⟨id, conditions, destination⟩ := r
  simp [Rule.maintain, Rule.Fits, Destination.maintain_eq_self_iff, list_map_eq_self_iff,
    Condition.maintain_eq_self_iff, and_comm]

theorem Question.maintain_eq_self_iff {kind : TargetKind} {allowed : List String}
    {q : Question} : q.maintain kind allowed = q ↔ q.Fits q.optionCount kind allowed := by
  obtain ⟨id, qkind, title, options, rules⟩ := q
  cases rules with
  | none => simp [Question.maintain, Question.Fits]
  | some rs =>
    obtain ⟨rules⟩ := rs
    simp [Question.maintain, Question.Fits, list_map_eq_self_iff, Rule.maintain_eq_self_iff]

/-! ## Maintenance of a whole survey -/

/-- Changing questions without touching their ids and titles changes no allowed destination. -/
theorem Survey.allowedDestinations_map_questions (s : Survey) (f : Question → Question)
    (hid : ∀ q, (f q).id = q.id) (htitle : ∀ q, (f q).title = q.title) (qid : String) :
    ({ s with sections := s.sections.map fun sec =>
        { sec with questions := sec.questions.map f } } :
      Survey).allowedDestinations qid = s.allowedDestinations qid := by
  generalize hs' : ({ s with sections := s.sections.map fun sec =>
    { sec with questions := sec.questions.map f } } : Survey) = s'
  -- The new survey has the old sections and questions, each with its id and title.
  have hkind : s'.targetKind = s.targetKind := by
    subst hs'
    simp [Survey.targetKind, Survey.usesSections]
  have hqs : s'.questions = s.questions.map f := by
    subst hs'
    simp [Survey.questions, List.flatMap_map, List.map_flatMap]
  have hidx : s'.sectionIndex? qid = s.sectionIndex? qid := by
    subst hs'
    simp [Survey.sectionIndex?, List.findIdx?_map, Function.comp_def, List.any_map, hid]
  unfold Survey.allowedDestinations
  rw [hkind]
  split
  · rw [hqs]
    simp [List.dropWhile_map, Function.comp_def, hid, htitle]
  · rw [hidx]
    split
    · rfl
    · subst hs'
      simp [Function.comp_def]

/-- Maintenance maintains each question, with the targets allowed on the survey as it was. -/
theorem Survey.maintain_eq (s : Survey) :
    s.maintain = { s with sections := s.sections.map fun sec =>
      { sec with questions := sec.questions.map fun q =>
        q.maintain s.targetKind (s.allowedIds q.id) } } := rfl

@[simp] theorem Survey.targetKind_maintain (s : Survey) : s.maintain.targetKind = s.targetKind := by
  simp [Survey.maintain_eq, Survey.targetKind, Survey.usesSections]

@[simp] theorem Survey.allowedIds_maintain (s : Survey) (qid : String) :
    s.maintain.allowedIds qid = s.allowedIds qid := by
  rw [Survey.allowedIds, Survey.maintain_eq, Survey.allowedDestinations_map_questions s
    (fun q => q.maintain s.targetKind (s.allowedIds q.id)) (fun _ => rfl) (fun _ => rfl)]
  rfl

theorem Survey.questions_maintain (s : Survey) :
    s.maintain.questions =
      s.questions.map fun q => q.maintain s.targetKind (s.allowedIds q.id) := by
  simp [Survey.maintain_eq, Survey.questions, List.flatMap_map, List.map_flatMap]

theorem Section.update_questions_eq_self {sec : «Section»} {qs : List Question} :
    ({ sec with questions := qs } : «Section») = sec ↔ qs = sec.questions := by
  obtain ⟨id, title, questions⟩ := sec
  simp

/-- Maintenance leaves a survey alone exactly when it fits the engine's option count. -/
theorem Survey.maintain_eq_self_iff_fits (s : Survey) :
    s.maintain = s ↔ s.Fits Question.optionCount := by
  conv_lhs => rw [Survey.maintain_eq]
  obtain ⟨id, title, sections⟩ := s
  simp [Survey.Fits, Survey.questions, list_map_eq_self_iff, Question.maintain_eq_self_iff,
    List.mem_flatMap, Section.update_questions_eq_self]
  exact ⟨fun h q sec hs hq => h sec hs q hq, fun h sec hs q hq => h q sec hs hq⟩

/-! ## What maintenance leaves -/

theorem Destination.fits_maintain (kind : TargetKind) (allowed : List String) (d : Destination) :
    (d.maintain kind allowed).Fits kind allowed := by
  unfold Destination.maintain
  split
  · exact ⟨rfl, by simp⟩
  · next hk =>
    refine ⟨by simpa using hk, fun t ht => ?_⟩
    simpa using (Option.mem_filter_iff.mp ht).2

theorem Condition.fits_maintain (q : Question) (c : Condition) :
    (c.maintain q).Fits q.optionIds q.optionCount := by
  obtain ⟨id, clause, test⟩ := c
  cases test with
  | empty => trivial
  | option oid check =>
    intro o ho
    simpa using (Option.mem_filter_iff.mp ho).2
  | count cmp count =>
    intro k hk
    exact (q.allowsCount_iff cmp k.toNat).mp (Option.mem_filter_iff.mp hk).2

theorem Question.fits_maintain (kind : TargetKind) (allowed : List String) (q : Question) :
    (q.maintain kind allowed).Fits q.optionCount kind allowed := by
  intro rs hrs r hr
  obtain ⟨rs, -, rfl⟩ := Option.map_eq_some_iff.mp hrs
  obtain ⟨r, -, rfl⟩ := List.mem_map.mp hr
  refine ⟨Destination.fits_maintain kind allowed r.destination, fun c hc => ?_⟩
  obtain ⟨c, -, rfl⟩ := List.mem_map.mp hc
  exact Condition.fits_maintain q c

/-- Every survey fits the engine's option count once maintained. -/
theorem Survey.fits_maintain (s : Survey) : s.maintain.Fits Question.optionCount := by
  intro q' hq'
  rw [Survey.questions_maintain] at hq'
  obtain ⟨q, -, rfl⟩ := List.mem_map.mp hq'
  rw [Survey.targetKind_maintain, Survey.allowedIds_maintain]
  exact Question.fits_maintain _ _ q

/-! ## Clearing only -/

/-- `b` keeps the value of `a`, or has none. -/
def KeptOrCleared {α : Type} (a b : Option α) : Prop :=
  b = a ∨ b = none

theorem keptOrCleared_filter {α : Type} (o : Option α) (p : α → Bool) :
    KeptOrCleared o (o.filter p) := by
  cases o with
  | none => exact .inl rfl
  | some a => by_cases h : p a <;> simp [KeptOrCleared, Option.filter_some, h]

/-- A test whose option id or count may have been cleared; its kind, option check and
comparison are kept. -/
def Test.ClearsTo : Test → Test → Prop
  | .empty, t' => t' = .empty
  | .option oid check, t' => ∃ oid', t' = .option oid' check ∧ KeptOrCleared oid oid'
  | .count cmp k, t' => ∃ k', t' = .count cmp k' ∧ KeptOrCleared k k'

/-- A condition with the same id and clause whose test may have been cleared. -/
def Condition.ClearsTo (c c' : Condition) : Prop :=
  c'.id = c.id ∧ c'.clause = c.clause ∧ c.test.ClearsTo c'.test

/-- A destination whose target may have been cleared; its kind may have changed. -/
def Destination.ClearsTo (d d' : Destination) : Prop :=
  KeptOrCleared d.target d'.target

/-- A rule with the same id and its conditions and destination in place, each possibly
cleared. -/
def Rule.ClearsTo (r r' : Rule) : Prop :=
  r'.id = r.id ∧ List.Forall₂ Condition.ClearsTo r.conditions r'.conditions ∧
    r.destination.ClearsTo r'.destination

/-- A question that differs only in cleared rules. -/
def Question.ClearsTo (q q' : Question) : Prop :=
  q'.id = q.id ∧ q'.kind = q.kind ∧ q'.title = q.title ∧ q'.options = q.options ∧
    Option.Rel (fun rs rs' => List.Forall₂ Rule.ClearsTo rs.rules rs'.rules) q.rules q'.rules

/-- A section that differs only in cleared questions. -/
def Section.ClearsTo (sec sec' : «Section») : Prop :=
  sec'.id = sec.id ∧ sec'.title = sec.title ∧
    List.Forall₂ Question.ClearsTo sec.questions sec'.questions

/-- A survey that differs from `s` only in cleared fields and in the kinds of destinations:
the same sections, questions, options, rules and conditions, in the same order, with the same
ids, titles, clauses, option checks and comparisons. -/
def Survey.ClearsTo (s s' : Survey) : Prop :=
  s'.id = s.id ∧ s'.title = s.title ∧ List.Forall₂ Section.ClearsTo s.sections s'.sections

theorem forall₂_map_self {α : Type} {R : α → α → Prop} {f : α → α} {l : List α}
    (h : ∀ a ∈ l, R a (f a)) : List.Forall₂ R l (l.map f) :=
  List.forall₂_map_right_iff.mpr (List.forall₂_same.mpr h)

theorem Condition.clearsTo_maintain (q : Question) (c : Condition) : c.ClearsTo (c.maintain q) := by
  obtain ⟨id, clause, test⟩ := c
  cases test with
  | empty => exact ⟨rfl, rfl, by simp [Condition.maintain, Test.ClearsTo]⟩
  | option oid check =>
    exact ⟨rfl, rfl, by
      simpa [Condition.maintain, Test.ClearsTo] using keptOrCleared_filter oid _⟩
  | count cmp count =>
    exact ⟨rfl, rfl, by
      simpa [Condition.maintain, Test.ClearsTo] using keptOrCleared_filter count _⟩

theorem Destination.clearsTo_maintain (kind : TargetKind) (allowed : List String)
    (d : Destination) : d.ClearsTo (d.maintain kind allowed) := by
  unfold Destination.maintain
  split
  · exact .inr rfl
  · exact keptOrCleared_filter _ _

theorem Question.clearsTo_maintain (kind : TargetKind) (allowed : List String) (q : Question) :
    q.ClearsTo (q.maintain kind allowed) := by
  obtain ⟨id, qkind, title, options, rules⟩ := q
  refine ⟨rfl, rfl, rfl, rfl, ?_⟩
  cases rules with
  | none => exact .none
  | some rs =>
    exact .some (forall₂_map_self fun r _ => ⟨rfl, forall₂_map_self fun c _ =>
      Condition.clearsTo_maintain _ c, Destination.clearsTo_maintain kind allowed r.destination⟩)

theorem Survey.clearsTo_maintain (s : Survey) : s.ClearsTo s.maintain :=
  ⟨rfl, rfl, forall₂_map_self fun _ _ => ⟨rfl, rfl, forall₂_map_self fun q _ =>
    Question.clearsTo_maintain _ _ q⟩⟩

/-! ## Main statements -/

/-- **Maintenance makes every survey valid, and clears only**: it gives destinations the
survey's kind and drops targets, option ids and counts, and changes nothing else. -/
theorem Survey.maintain_valid_clearing (s : Survey) : s.maintain.Valid ∧ s.ClearsTo s.maintain :=
  ⟨s.fits_maintain.mono fun q _ => q.optionCount_le, s.clearsTo_maintain⟩

/-- A target behind its question and an option the question lacks are cleared. -/
example :
    let s : Survey := { id := "s", sections := [{ id := "s1", questions := [
      { id := "q1", kind := .openEnded },
      { id := "q2", kind := .single, options := [⟨"a", "A"⟩],
        rules := some ⟨[⟨"r1", [⟨"c1", .and, .option (some "b") (some .selected)⟩],
          ⟨some .question, some "q1"⟩⟩]⟩ }] }] }
    ¬ s.Valid ∧
      s.maintain = { id := "s", sections := [{ id := "s1", questions := [
        { id := "q1", kind := .openEnded },
        { id := "q2", kind := .single, options := [⟨"a", "A"⟩],
          rules := some ⟨[⟨"r1", [⟨"c1", .and, .option none (some .selected)⟩],
            ⟨some .question, none⟩⟩]⟩ }] }] } := by
  decide

/-- **Maintenance leaves a survey alone exactly when it fits**, its options counted as the
engine counts them; for a survey whose questions have fewer than `2^32` options each that is
exactly when the survey is valid. Maintaining twice is maintaining once. -/
theorem Survey.maintain_stable_iff (s : Survey) :
    (s.maintain = s ↔ s.Fits Question.optionCount) ∧
    ((∀ q ∈ s.questions, q.options.length < 4294967296) → (s.maintain = s ↔ s.Valid)) ∧
    s.maintain.maintain = s.maintain := by
  refine ⟨s.maintain_eq_self_iff_fits, fun hlen => ?_,
    s.maintain.maintain_eq_self_iff_fits.mpr s.fits_maintain⟩
  -- Below `2^32` options the engine's count is the number of options.
  have hcount : ∀ q ∈ s.questions, q.options.length ≤ q.optionCount := fun q hq => by
    have := hlen q hq
    simp only [Question.optionCount]
    omega
  rw [s.maintain_eq_self_iff_fits]
  exact ⟨fun h => h.mono fun q _ => q.optionCount_le, fun h => h.mono hcount⟩

/-- A valid survey whose questions have few options is left as it is. -/
theorem Survey.maintain_stable_iff_fixture :
    let s : Survey := { id := "survey", sections := [{ id := "s1", questions := [
      { id := "q1", kind := .single, options := [⟨"q1-1", "A"⟩, ⟨"q1-2", "B"⟩],
        rules := some ⟨[⟨"r1", [⟨"c1", .or, .option (some "q1-2") (some .selected)⟩,
          ⟨"c2", .and, .count (some .less) (some 2)⟩],
          ⟨some .question, some "q2"⟩⟩]⟩ },
      { id := "q2", kind := .openEnded }] }] }
    (∀ q ∈ s.questions, q.options.length < 4294967296) ∧ (s.maintain = s ↔ s.Valid) := by
  intro s
  have hfew : ∀ q ∈ s.questions, q.options.length < 4294967296 := by decide
  exact ⟨hfew, (Survey.maintain_stable_iff s).2.1 hfew⟩

/-- A question of `2^32` options with a `greater` count of `2^32 - 1`: the count is in the
range for its options, but the engine counts `2^32 - 1` options and clears it. -/
theorem Survey.maintain_clears_valid_top_count :
    let s : Survey := { id := "survey", sections := [{ id := "s1", questions := [
      { id := "q1", kind := .multiple, options := List.replicate 4294967296 ⟨"o", "v"⟩,
        rules := some ⟨[⟨"r1", [⟨"c1", .and, .count (some .greater) (some 4294967295)⟩],
          ⟨some .question, none⟩⟩]⟩ }] }] }
    s.Valid ∧ s.maintain ≠ s := by
  -- The options are never listed: only their number matters.
  have hlen : (List.replicate 4294967296 (⟨"o", "v"⟩ : AnswerOption)).length = 4294967296 :=
    List.length_replicate
  generalize List.replicate 4294967296 (⟨"o", "v"⟩ : AnswerOption) = opts at hlen ⊢
  intro s
  refine ⟨?_, fun h => ?_⟩
  · simp [s, hlen, Survey.Valid, Survey.Fits, Survey.questions, Question.Fits, Rule.Fits,
      Destination.Fits, Condition.Fits, CountAllowed, Survey.targetKind, Survey.usesSections]
  · have hfit := (Survey.maintain_eq_self_iff_fits _).mp h
    simp [s, hlen, Survey.Fits, Survey.questions, Question.Fits, Rule.Fits, Condition.Fits,
      CountAllowed, Question.optionCount] at hfit

end SurveyBranching
