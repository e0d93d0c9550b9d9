import MiryFormal.Universe.Membership

/-!
# What `_select_due` selects

The scan of the override files in closed form, what is known of a decision that was selected,
and which overrides pass the checks.
-/

namespace MiryFormal

set_option autoImplicit false

/-! ## What the scan finds -/

section Scan
variable {policy : UniversePolicy} {memory : Membership} {now : Datetime}
  {overrides : List (String × Option CandidateOverride)}

/-- The file is renamed. -/
def rejects (policy : UniversePolicy) (memory : Membership)
    (entry : String × Option CandidateOverride) : Bool :=
  match readOverride policy memory entry.2 with
  | .error error => error.isValueError
  | .ok _ => false

/-- No error escapes from the `try` block. -/
def Admissible (policy : UniversePolicy) (memory : Membership)
    (entry : String × Option CandidateOverride) : Prop :=
  ∀ error, readOverride policy memory entry.2 = .error error → error.isValueError = true

/-- The candidate that the file gives. -/
def candidateOf (policy : UniversePolicy) (memory : Membership) (now : Datetime)
    (entry : String × Option CandidateOverride) : Option (VersionedDecision × DueSource) :=
  match readOverride policy memory entry.2 with
  | .error _ => none
  | .ok decision => if IsDue memory now decision then some (decision, .override entry.1) else none

theorem candidateOf_some {entry : String × Option CandidateOverride}
    {candidate : VersionedDecision × DueSource}
    (h : candidateOf policy memory now entry = some candidate) :
    readOverride policy memory entry.2 = .ok candidate.1 ∧ IsDue memory now candidate.1 ∧
      candidate.2 = .override entry.1 := by
  unfold candidateOf at h
  split at h
  · cases h
  · rename_i decision hread
    split at h
    · rename_i hdue
      cases h
      exact ⟨hread, hdue, rfl⟩
    · cases h

theorem scanOverrides_eq (h : ∀ entry ∈ overrides, Admissible policy memory entry) :
    scanOverrides policy memory now overrides =
      ((overrides.filter (rejects policy memory)).map Prod.fst,
        .ok (overrides.filterMap (candidateOf policy memory now))) := by
  induction overrides with
  | nil => rfl
  | cons entry later ih =>
    obtain ⟨name, content⟩ := entry
    have hlater := ih fun entry hm => h entry (List.mem_cons_of_mem _ hm)
    have hfirst := h (name, content) List.mem_cons_self
    unfold Admissible at hfirst
    rw [scanOverrides, List.filter_cons, List.filterMap_cons, rejects, candidateOf, hlater]
    cases hread : readOverride policy memory content with
    | error error => simp [hfirst error hread]
    | ok decision =>
      by_cases hdue : IsDue memory now decision
      · simp [hdue, Except.map]
      · simp [hdue]

theorem admissible_of_scan {found : List (VersionedDecision × DueSource)}
    (h : (scanOverrides policy memory now overrides).2 = .ok found) :
    ∀ entry ∈ overrides, Admissible policy memory entry := by
  induction overrides generalizing found with
  | nil => exact fun entry hm => absurd hm List.not_mem_nil
  | cons first later ih =>
    obtain ⟨name, content⟩ := first
    rw [scanOverrides] at h
    have hboth : Admissible policy memory (name, content) ∧
        ∃ found, (scanOverrides policy memory now later).2 = .ok found := by
      unfold Admissible
      cases hread : readOverride policy memory content with
      | error error =>
        rw [hread] at h
        dsimp only at h
        split at h
        · rename_i hvalue
          exact ⟨fun other heq => Except.error.inj heq ▸ hvalue, found, h⟩
        · cases h
      | ok decision =>
        rw [hread] at h
        dsimp only at h
        refine ⟨fun other heq => (by cases heq), ?_⟩
        split at h
        · cases hscan : (scanOverrides policy memory now later).2 with
          | error error =>
            rw [hscan] at h
            cases h
          | ok found => exact ⟨found, rfl⟩
        · exact ⟨found, h⟩
    obtain ⟨hfirst, found, hfound⟩ := hboth
    intro entry hm
    cases List.mem_cons.mp hm with
    | inl heq => exact heq ▸ hfirst
    | inr hm => exact ih hfound entry hm

theorem duePlan_mem {files : UniverseFiles} {candidate : VersionedDecision × DueSource}
    (h : candidate ∈ duePlan policy memory files now) :
    files.pending = some candidate.1 ∧ candidate.2 = .pending ∧ policy.automationEnabled = true ∧
      IsDue memory now candidate.1 := by
  unfold duePlan at h
  split at h
  · rename_i decision hpending
    split at h
    · rename_i hdue
      obtain rfl := List.mem_singleton.mp h
      exact ⟨hpending, rfl, hdue.1, hdue.2⟩
    · cases h
  · cases h

end Scan

/-- What `_select_due` has found when it returns `decision` from `source`. -/
structure Chosen (policy : UniversePolicy) (memory : Membership) (files : UniverseFiles)
    (now : Datetime) (decision : VersionedDecision) (source : DueSource) : Prop where
  due : IsDue memory now decision
  admissible : ∀ entry ∈ files.overrides, Admissible policy memory entry
  plan : source = .pending → files.pending = some decision
  override : ∀ name, source = .override name → ∃ content,
    (name, content) ∈ files.overrides ∧ readOverride policy memory content = .ok decision
  newest : ∀ candidate ∈ duePlan policy memory files now,
    candidate.1.decisionSequence ≤ decision.decisionSequence

section Select
variable {policy : UniversePolicy} {memory : Membership} {files : UniverseFiles} {now : Datetime}

/-- The key compares sequences first. -/
theorem sequence_le_of_dueKey {a b : VersionedDecision × DueSource} (h : dueKey a ≤ dueKey b) :
    a.1.decisionSequence ≤ b.1.decisionSequence := by
  unfold dueKey at h
  rw [Prod.Lex.toLex_le_toLex] at h
  cases h with
  | inl hlt => exact hlt.le
  | inr heq => exact heq.1.le

theorem selectDue_eq (h : ∀ entry ∈ files.overrides, Admissible policy memory entry) :
    selectDue policy memory files now =
      ((files.overrides.filter (rejects policy memory)).map Prod.fst,
        .ok ((duePlan policy memory files now ++
          files.overrides.filterMap (candidateOf policy memory now)).argmax dueKey)) := by
  unfold selectDue
  rw [scanOverrides_eq h]
  rfl

theorem admissible_of_selectDue {selected : Option (VersionedDecision × DueSource)}
    (h : (selectDue policy memory files now).2 = .ok selected) :
    ∀ entry ∈ files.overrides, Admissible policy memory entry := by
  unfold selectDue at h
  cases hscan : (scanOverrides policy memory now files.overrides).2 with
  | error error =>
    dsimp only at h
    rw [hscan] at h
    cases h
  | ok found => exact admissible_of_scan hscan

theorem selectDue_chosen {decision : VersionedDecision} {source : DueSource}
    (h : (selectDue policy memory files now).2 = .ok (some (decision, source))) :
    Chosen policy memory files now decision source := by
  have hadmissible := admissible_of_selectDue h
  rw [selectDue_eq hadmissible] at h
  have hmax := Except.ok.inj h
  have hm := List.argmax_mem hmax
  refine ⟨?_, hadmissible, ?_, ?_, ?_⟩
  · cases List.mem_append.mp hm with
    | inl hplan => exact (duePlan_mem hplan).2.2.2
    | inr hfound =>
      obtain ⟨entry, -, hentry⟩ := List.mem_filterMap.mp hfound
      exact (candidateOf_some hentry).2.1
  · intro hsource
    cases List.mem_append.mp hm with
    | inl hplan => exact (duePlan_mem hplan).1
    | inr hfound =>
      obtain ⟨entry, -, hentry⟩ := List.mem_filterMap.mp hfound
      have hname := (candidateOf_some hentry).2.2
      rw [hsource] at hname
      cases hname
  · intro name hsource
    cases List.mem_append.mp hm with
    | inl hplan =>
      have hpending := (duePlan_mem hplan).2.1
      rw [hsource] at hpending
      cases hpending
    | inr hfound =>
      obtain ⟨entry, hentry, hcandidate⟩ := List.mem_filterMap.mp hfound
      obtain ⟨hread, -, hname⟩ := candidateOf_some hcandidate
      rw [hsource] at hname
      cases hname
      exact ⟨entry.2, hentry, hread⟩
  · intro candidate hcandidate
    exact sequence_le_of_dueKey
      (List.le_of_mem_argmax (List.mem_append_left _ hcandidate) hmax)

theorem selectDue_none (h : ∀ entry ∈ files.overrides, Admissible policy memory entry) :
    (selectDue policy memory files now).2 = .ok none ↔
      duePlan policy memory files now = [] ∧
        ∀ entry ∈ files.overrides, candidateOf policy memory now entry = none := by
  rw [selectDue_eq h]
  dsimp only
  rw [Except.ok.injEq, List.argmax_eq_none, List.append_eq_nil_iff, List.filterMap_eq_nil_iff]

end Select

/-! ## What an override becomes -/

section Override
variable {policy : UniversePolicy} {memory : Membership} {override : CandidateOverride}

theorem decisionFromOverride_ok {decision : VersionedDecision}
    (h : decisionFromOverride policy memory override = .ok decision) :
    ∃ hcore minimum, minimumJoinedAt policy override.effectiveAt = .ok minimum ∧
      decision = overrideDecision memory.active override hcore := by
  unfold decisionFromOverride at h
  split at h
  · rename_i hcore
    split at h
    · cases h
    · split at h
      · cases h
      · rename_i minimum hminimum
        split at h
        · cases h
        · cases h
          exact ⟨hcore, minimum, hminimum, rfl⟩
  · cases h

theorem readOverride_ok {content : Option CandidateOverride} {decision : VersionedDecision}
    (h : readOverride policy memory content = .ok decision) : ∃ override,
      content = some override ∧ decisionFromOverride policy memory override = .ok decision := by
  cases content with
  | none => cases h
  | some override => exact ⟨override, rfl, h⟩

theorem minimumJoinedAt_ok {effectiveAt : Datetime}
    (hdelta : policy.rolling.candidateMinimumDwellHours * 3600000000 < 1000000000 * 86400000000)
    (hdate : policy.rolling.candidateMinimumDwellHours * 3600000000 ≤ effectiveAt.micros) :
    ∃ minimum, minimumJoinedAt policy effectiveAt = .ok minimum :=
  ⟨_, bind_eq (dif_pos hdelta) (if_pos hdate)⟩

/-- An override whose candidates are those of the active decision passes every check. -/
theorem decisionFromOverride_same {minimum : Datetime}
    (hminimum : minimumJoinedAt policy override.effectiveAt = .ok minimum)
    (hsame : ∀ symbol, symbol ∈ override.boundary ++ override.probe ↔
      symbol ∈ memory.active.boundary ++ memory.active.probe) :
    ∃ hcore, decisionFromOverride policy memory override =
      .ok (overrideDecision memory.active override hcore) := by
  have hcore : ∀ symbol ∈ override.boundary ++ override.probe, symbol ∉ memory.active.core := by
    intro symbol hm hin
    have hnodup := memory.active.distinct
    rw [List.append_assoc] at hnodup
    exact (List.nodup_append.mp hnodup).2.2 symbol hin symbol ((hsame symbol).mp hm) rfl
  have hnew : ((override.boundary ++ override.probe).filter fun symbol =>
      symbol ∉ memory.active.boundary ++ memory.active.probe) = [] := by
    refine List.filter_eq_nil_iff.mpr fun symbol hm hnot => ?_
    exact of_decide_eq_true hnot ((hsame symbol).mp hm)
  have hyoung : tooYoung memory override minimum = [] := by
    refine List.filter_eq_nil_iff.mpr fun symbol hm hnot => ?_
    exact (of_decide_eq_true hnot).1 ((hsame symbol).mpr hm)
  refine ⟨hcore, ?_⟩
  unfold decisionFromOverride
  rw [dif_pos hcore, hnew, if_neg (by simp), hminimum]
  dsimp only
  rw [hyoung, if_neg (by simp)]

/-- An error that escapes is an overflow of the dwell. -/
theorem admissible_of_minimum {name : String} {minimum : Datetime}
    (hminimum : minimumJoinedAt policy override.effectiveAt = .ok minimum) :
    Admissible policy memory (name, some override) := by
  intro error herror
  unfold readOverride decisionFromOverride at herror
  dsimp only at herror
  rw [hminimum] at herror
  split at herror
  · split at herror
    · cases herror
      rfl
    · dsimp only at herror
      split at herror
      · cases herror
        rfl
      · cases herror
  · cases herror
    rfl

end Override

theorem selectDue_single {policy : UniversePolicy} {memory : Membership} {files : UniverseFiles}
    {now : Datetime} {name : String} {override : CandidateOverride} {decision : VersionedDecision}
    (hpending : files.pending = none) (hfiles : files.overrides = [(name, some override)])
    (hdecision : decisionFromOverride policy memory override = .ok decision)
    (hdue : IsDue memory now decision) :
    (selectDue policy memory files now).2 = .ok (some (decision, .override name)) := by
  have hread : readOverride policy memory (some override) = .ok decision := hdecision
  have hadmissible : ∀ entry ∈ files.overrides, Admissible policy memory entry := by
    intro entry hm error herror
    rw [hfiles, List.mem_singleton] at hm
    subst hm
    rw [hread] at herror
    cases herror
  have hcandidate : candidateOf policy memory now (name, some override) =
      some (decision, .override name) := by
    unfold candidateOf
    rw [hread]
    exact if_pos hdue
  rw [selectDue_eq hadmissible]
  unfold duePlan
  rw [hpending, hfiles, List.filterMap_cons, hcandidate]
  rfl

end MiryFormal
