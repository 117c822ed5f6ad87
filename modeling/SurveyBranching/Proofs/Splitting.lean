import SurveyBranching.Survey.Split
/-!
# Splitting sections at questions with rules

Splitting cuts each section into its runs, each ending at a question with rules or at the end
of the section. The runs of a list put back together are the list, and a run has no question
with rules before its last; so the split sections hold the same questions in the same order,
and every question with rules ends its section.

Splitting on request keeps the old sections when the split has as many as before. Without an
empty section that is sound: each section gives at least one run, so as many runs as sections
means one run each, and every section already ends at its question with rules. An empty section
gives no run and can hide a section cut in two: the number stays the same and the survey is kept
with a question with rules in the middle of a section.

## Main definitions

* `Section.RulesAtEnd`: no question with rules before the last of the section.
* `Survey.SplitSettles`: what splitting on request should leave of a survey.

## Main statements

* `splitSections_questions`: the split sections hold the runs of the old ones.
* `rulesAtEnd_of_length_runs_eq`: as many runs as sections, none empty, means one run each.
* `Survey.autoSplit_settles_iff`: when splitting on request leaves what it should.
-/

namespace SurveyBranching

variable {σ : Type}

/-- Every question with rules is the last of the section. -/
def Section.RulesAtEnd (sec : «Section») : Prop :=
  ∀ q ∈ sec.questions.dropLast, q.hasRules = false

instance Section.decidableRulesAtEnd (sec : «Section») : Decidable sec.RulesAtEnd :=
  inferInstanceAs (Decidable (∀ q ∈ sec.questions.dropLast, q.hasRules = false))

theorem mem_dropLast_cons {α : Type} {x a : α} {l : List α} (h : x ∈ (a :: l).dropLast) :
    x = a ∨ x ∈ l.dropLast := by
  cases l with
  | nil => simp at h
  | cons b l => simpa using h

namespace Section

/-- The runs of a list of questions, put back together, are the list. -/
theorem flatten_runs (qs : List Question) : (runs qs).flatten = qs := by
  fun_induction runs qs with
  | case1 => rfl
  | case2 q rest _ ih => simp [ih]
  | case3 q rest _ hnil ih =>
    rw [hnil] at ih
    simp [← ih]
  | case4 q rest _ r rs hcons ih =>
    rw [hcons] at ih
    simp [← ih]

/-- A list with questions has a run. -/
theorem one_le_length_runs {qs : List Question} (h : qs ≠ []) : 1 ≤ (runs qs).length := by
  obtain ⟨q, rest, rfl⟩ := List.exists_cons_of_ne_nil h
  unfold runs
  split
  · simp
  · split <;> simp

/-- Every run ends at its only question with rules, if it has one. -/
theorem rulesAtEnd_of_mem_runs {qs r : List Question} (hr : r ∈ runs qs) :
    ∀ q ∈ r.dropLast, q.hasRules = false := by
  fun_induction runs qs generalizing r with
  | case1 => cases hr
  | case2 q rest _ ih =>
    rcases List.mem_cons.mp hr with rfl | hr
    · simp
    · exact ih hr
  | case3 q rest _ _ _ =>
    obtain rfl : r = [q] := by simpa using hr
    simp
  | case4 q rest hq r' rs hcons ih =>
    rcases List.mem_cons.mp hr with rfl | hr
    · intro x hx
      rcases mem_dropLast_cons hx with rfl | hx
      · simpa using hq
      · exact ih (by simp [hcons]) x hx
    · exact ih (by simp [hcons, hr])

/-- A list cut into one run only has no question with rules before its last. -/
theorem rulesAtEnd_of_length_runs {qs : List Question} (h : (runs qs).length = 1) :
    ∀ q ∈ qs.dropLast, q.hasRules = false := by
  obtain ⟨r, hr⟩ := List.length_eq_one_iff.mp h
  have hqs : qs = r := by
    rw [← flatten_runs qs, hr]
    simp
  subst hqs
  have hmem : qs ∈ runs qs := by
    rw [hr]
    exact List.mem_singleton_self _
  exact rulesAtEnd_of_mem_runs hmem

/-- The pieces hold the runs they are given, in order. -/
theorem pieces_questions (ids : IdSupply σ) (rs : List (List Question)) :
    (pieces ids rs).1.map (·.questions) = rs := by
  induction rs generalizing ids with
  | nil => rfl
  | cons r rs ih => simp [pieces, ih]

/-- The sections a section is cut into hold its runs. -/
theorem split_questions (ids : IdSupply σ) (sec : «Section») :
    (sec.split ids).1.map (·.questions) = runs sec.questions := by
  unfold split
  split
  · next h => rw [h]; rfl
  · next first rest h => simp [h, pieces_questions]

end Section

/-- **The sections after splitting hold the runs of the sections before**, in order. -/
theorem splitSections_questions (ids : IdSupply σ) (secs : List «Section») :
    (splitSections ids secs).1.map (·.questions) =
      secs.flatMap fun sec => Section.runs sec.questions := by
  induction secs generalizing ids with
  | nil => rfl
  | cons sec rest ih => simp [splitSections, Section.split_questions, ih]

/-- Splitting keeps the questions and their order. -/
theorem questions_splitSections (ids : IdSupply σ) (secs : List «Section») :
    (splitSections ids secs).1.flatMap (·.questions) = secs.flatMap (·.questions) := by
  rw [List.flatMap_def, splitSections_questions, List.flatten_eq_flatMap, List.flatMap_assoc]
  simp [Section.flatten_runs]

/-- Every section after splitting ends at its only question with rules, if it has one. -/
theorem rulesAtEnd_of_mem_splitSections {ids : IdSupply σ} {secs : List «Section»}
    {sec' : «Section»} (h : sec' ∈ (splitSections ids secs).1) : sec'.RulesAtEnd := by
  have hq : sec'.questions ∈ (splitSections ids secs).1.map (·.questions) :=
    List.mem_map_of_mem h
  rw [splitSections_questions] at hq
  obtain ⟨sec, -, hr⟩ := List.mem_flatMap.mp hq
  exact Section.rulesAtEnd_of_mem_runs hr

/-- Splitting makes one section of each run. -/
theorem length_splitSections (ids : IdSupply σ) (secs : List «Section») :
    (splitSections ids secs).1.length =
      (secs.flatMap fun sec => Section.runs sec.questions).length := by
  rw [← splitSections_questions, List.length_map]

/-- Sections with questions make at least one run each. -/
theorem length_le_length_runs {secs : List «Section»}
    (hne : ∀ sec ∈ secs, sec.questions ≠ []) :
    secs.length ≤ (secs.flatMap fun sec => Section.runs sec.questions).length := by
  induction secs with
  | nil => simp
  | cons sec rest ih =>
    have hsec := Section.one_le_length_runs (hne sec List.mem_cons_self)
    have hrest := ih fun sec' h => hne sec' (List.mem_cons_of_mem _ h)
    simp only [List.flatMap_cons, List.length_append, List.length_cons]
    omega

/-- **Counting runs**: when sections with questions make as many runs as there are sections,
each makes one, so each already ends at its only question with rules. -/
theorem rulesAtEnd_of_length_runs_eq {secs : List «Section»}
    (hne : ∀ sec ∈ secs, sec.questions ≠ [])
    (hlen : (secs.flatMap fun sec => Section.runs sec.questions).length = secs.length) :
    ∀ sec ∈ secs, sec.RulesAtEnd := by
  induction secs with
  | nil => simp
  | cons sec rest ih =>
    have hsec := Section.one_le_length_runs (hne sec List.mem_cons_self)
    have hne' : ∀ sec' ∈ rest, sec'.questions ≠ [] := fun sec' h =>
      hne sec' (List.mem_cons_of_mem _ h)
    have hrest := length_le_length_runs hne'
    simp only [List.flatMap_cons, List.length_append, List.length_cons] at hlen
    intro sec' hsec'
    rcases List.mem_cons.mp hsec' with rfl | hsec'
    · exact Section.rulesAtEnd_of_length_runs (by omega)
    · exact ih hne' (by omega) sec' hsec'

/-! ## Splitting on request -/

/-- What splitting on request should leave of survey `s`, as outcome `o` and survey `s'`: the
same questions in the same order, every question with rules last in its section, the sections
replaced exactly when the outcome says so, with their numbers before and after, and the
advisory exactly when sections were added. -/
def Survey.SplitSettles (s : Survey) (o : SplitOutcome) (s' : Survey) : Prop :=
  s'.questions = s.questions ∧ (∀ sec ∈ s'.sections, sec.RulesAtEnd) ∧
    o = (if s'.sections = s.sections then .unchanged
      else .replaced s.sections.length s'.sections.length) ∧
    (o.needsAdvisory = true ↔ s.sections.length < s'.sections.length)

instance Survey.decidableSplitSettles (s : Survey) (o : SplitOutcome) (s' : Survey) :
    Decidable (s.SplitSettles o s') :=
  inferInstanceAs (Decidable (_ ∧ _ ∧ _ ∧ _))

/-- Splitting on request compares the numbers of sections before and after. -/
theorem Survey.autoSplit_true (ids : IdSupply σ) (s : Survey) :
    s.autoSplit ids true =
      if (splitSections ids s.sections).1.length = s.sections.length then
        (.unchanged, s, (splitSections ids s.sections).2)
      else (.replaced s.sections.length (splitSections ids s.sections).1.length,
        { s with sections := (splitSections ids s.sections).1 },
        (splitSections ids s.sections).2) :=
  rfl

/-- **Splitting on request settles a survey exactly when it changes the number of sections or
the survey already has every question with rules last in its section**; in particular it
settles every survey without an empty section. -/
theorem Survey.autoSplit_settles_iff (ids : IdSupply σ) (s : Survey) :
    (s.SplitSettles (s.autoSplit ids true).1 (s.autoSplit ids true).2.1 ↔
      (splitSections ids s.sections).1.length ≠ s.sections.length ∨
        ∀ sec ∈ s.sections, sec.RulesAtEnd) ∧
    ((∀ sec ∈ s.sections, sec.questions ≠ []) →
      s.SplitSettles (s.autoSplit ids true).1 (s.autoSplit ids true).2.1) := by
  have hiff : s.SplitSettles (s.autoSplit ids true).1 (s.autoSplit ids true).2.1 ↔
      (splitSections ids s.sections).1.length ≠ s.sections.length ∨
        ∀ sec ∈ s.sections, sec.RulesAtEnd := by
    rw [Survey.autoSplit_true]
    by_cases hlen : (splitSections ids s.sections).1.length = s.sections.length
    · -- The survey is kept as it was, so it settles exactly when it already ends sections well.
      simp [hlen, Survey.SplitSettles, SplitOutcome.needsAdvisory]
    · -- The sections are replaced by the split ones, which always settle.
      have hne : (splitSections ids s.sections).1 ≠ s.sections := fun h => hlen (by rw [h])
      simp [hlen, hne, Survey.SplitSettles, Survey.questions, questions_splitSections,
        SplitOutcome.needsAdvisory]
      exact fun sec h => rulesAtEnd_of_mem_splitSections h
  refine ⟨hiff, fun hne => hiff.mpr ?_⟩
  by_cases hlen : (splitSections ids s.sections).1.length = s.sections.length
  · -- As many sections as before, none of them empty: each was one run already.
    have hruns := (length_splitSections ids s.sections).symm.trans hlen
    exact .inr (rulesAtEnd_of_length_runs_eq hne hruns)
  · exact .inl hlen

/-- A section cut at two questions with rules, as splitting on request is first asked for. -/
theorem Survey.autoSplit_settles_iff_twoBranches :
    let s : Survey := { id := "survey", sections := [{
      id := "s1", title := some "Section s1", questions := [
        { id := "q1", kind := .single },
        { id := "q2", kind := .single, rules := some ⟨[⟨"q2-rule", [], {}⟩]⟩ },
        { id := "q3", kind := .single },
        { id := "q4", kind := .single, rules := some ⟨[⟨"q4-rule", [], {}⟩]⟩ }] }] }
    (∀ sec ∈ s.sections, sec.questions ≠ []) ∧
      s.SplitSettles (s.autoSplit (.sequential "new-") true).1
        (s.autoSplit (.sequential "new-") true).2.1 := by
  intro s
  have hne : ∀ sec ∈ s.sections, sec.questions ≠ [] := by decide
  exact ⟨hne, (Survey.autoSplit_settles_iff _ s).2 hne⟩

/-- An empty section and a question with rules in the middle of another: splitting drops the
one section and adds another, the number of sections stays two, and the survey is kept with
the question with rules still in the middle of its section. -/
theorem Survey.autoSplit_unchanged_with_empty_section :
    let s : Survey := { id := "survey", sections := [
      { id := "a", title := some "A", questions := [
        { id := "q1", kind := .single, rules := some ⟨[⟨"r1", [], {}⟩]⟩ },
        { id := "q2", kind := .single }] },
      { id := "b", title := some "B" }] }
    ¬ s.SplitSettles (s.autoSplit (.sequential "s") true).1
      (s.autoSplit (.sequential "s") true).2.1 := by
  decide

end SurveyBranching
