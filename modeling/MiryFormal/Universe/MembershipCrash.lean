import MiryFormal.Universe.StoreRuns

/-!
# A crash inside `apply_due`

`active.json` is written first and nothing that is read back says whether the files after it
were. A restart takes the store for settled: the plan is not due any more and stays on disk, and
the override, compared with the roles it has just set, passes every check again.
-/

namespace MiryFormal

set_option autoImplicit false

/-! ## The dates of the members -/

theorem get_setDefault (since : List (String × Datetime)) (symbol : String) (joined : Datetime)
    (c : String) : KeyedDict.get id c (setDefault since symbol joined) =
      if symbol = c ∧ KeyedDict.get id c since = none then some joined
      else KeyedDict.get id c since := by
  unfold setDefault
  split
  · rename_i hsome
    rw [if_neg]
    intro h
    rw [h.1, h.2] at hsome
    cases hsome
  · rename_i hnone
    rw [KeyedDict.get_set, id]
    by_cases hc : symbol = c
    · subst hc
      rw [if_pos rfl, if_pos ⟨rfl, Option.not_isSome_iff_eq_none.mp hnone⟩]
    · rw [if_neg hc, if_neg fun h => hc h.1]

theorem get_foldl_setDefault (symbols : List String) (joined : Datetime)
    (since : List (String × Datetime)) (c : String) :
    KeyedDict.get id c (symbols.foldl (fun since symbol => setDefault since symbol joined) since) =
      if c ∈ symbols ∧ KeyedDict.get id c since = none then some joined
      else KeyedDict.get id c since := by
  induction symbols generalizing since with
  | nil => simp
  | cons symbol symbols ih =>
    rw [List.foldl_cons, ih, get_setDefault]
    by_cases hnone : KeyedDict.get id c since = none
    · by_cases hc : symbol = c
      · simp [hnone, hc]
      · simp [hnone, hc, Ne.symm hc]
    · simp [hnone]

theorem memberSince_apply {memory : Membership} {decision : VersionedDecision} {symbol : String}
    (hmembers : ∀ entry ∈ memory.memberSince, entry.1 ∈ memory.active.members)
    (hm : symbol ∈ decision.members) (hnew : symbol ∉ memory.active.members) :
    KeyedDict.get id symbol (memory.apply decision).memberSince = some decision.effectiveAt := by
  have hnone : KeyedDict.get id symbol memory.memberSince = none := by
    apply KeyedDict.get_eq_none_of_notMem
    intro entry hentry heq
    exact hnew (heq ▸ hmembers entry hentry)
  have hget := @KeyedDict.get_filter String String Datetime _ id
    (fun symbol => decide (symbol ∈ decision.members)) symbol
    (decision.members.foldl (fun since symbol => setDefault since symbol decision.effectiveAt)
      memory.memberSince)
  unfold Membership.apply
  refine hget.trans ?_
  rw [if_pos (decide_eq_true hm), get_foldl_setDefault, if_pos ⟨hm, hnone⟩]

/-! ## Restarts -/

section Restart
variable {policy : UniversePolicy} {now : Datetime}

/-- `initialize` and `apply_due` of a new process. -/
def restart (policy : UniversePolicy) (files : UniverseFiles) (now : Datetime) :
    Except MembershipError UniverseStore := do
  let store ← initializeStore policy files now
  (applyDue policy store now).outcome.map fun _ => (applyDue policy store now).store store.files

/-- A restart on `files` ends where the call that applied `decision` from `source` would have
ended. -/
def Recovers (policy : UniversePolicy) (previous : Membership) (decision : VersionedDecision)
    (source : DueSource) (files : UniverseFiles) (now : Datetime) : Prop :=
  ∃ store, restart policy files now = .ok store ∧ store.memory = previous.apply decision ∧
    ¬ source.Present store.files ∧
    ∀ symbol ∈ decision.members, symbol ∉ previous.active.members →
      KeyedDict.get id symbol store.memory.memberSince = some decision.effectiveAt

variable {files : UniverseFiles} {start final : UniverseStore}

/-- A restart applies another decision, or renames files at most. -/
theorem restart_cases (hstart : initializeStore policy files now = .ok start)
    (h : restart policy files now = .ok final) :
    ((selectDue policy start.memory start.files now).2 = .ok none ∧
        ∃ names, final = ⟨start.memory, start.files.withoutOverrides names⟩) ∨
      start.memory.active.decisionSequence < final.memory.active.decisionSequence := by
  unfold restart at h
  rw [hstart] at h
  change (applyDue policy start now).outcome.map
    (fun _ => (applyDue policy start now).store start.files) = .ok final at h
  cases hselected : (selectDue policy start.memory start.files now).2 with
  | error error =>
    unfold applyDue at h
    rw [hselected] at h
    cases h
  | ok selected =>
    cases selected with
    | none =>
      obtain ⟨names, hstore, -⟩ := @applyDue_idle policy start now fun decision source heq => by
        rw [hselected] at heq
        cases heq
      refine .inl ⟨rfl, names, ?_⟩
      rw [← hstore]
      have houtcome : (applyDue policy start now).outcome = .ok none := by
        unfold applyDue
        rw [hselected]
      rw [houtcome] at h
      exact (Except.ok.inj h).symm
    | some item =>
      rw [applyDue_chosen hselected] at h
      cases h
      exact .inr (selectDue_chosen hselected).due.1

theorem restart_chosen {decision : VersionedDecision} {source : DueSource}
    (hstart : initializeStore policy files now = .ok start)
    (h : (selectDue policy start.memory start.files now).2 = .ok (some (decision, source))) :
    ∃ final, restart policy files now = .ok final ∧
      final.memory = start.memory.apply decision := by
  have hcall := applyDue_chosen h
  refine ⟨(applyDue policy start now).store start.files, ?_, ?_⟩
  · unfold restart
    rw [hstart]
    exact congrArg (Except.map _) (congrArg DueCall.outcome hcall)
  · rw [hcall]
    rfl

theorem restart_idle (hstart : initializeStore policy files now = .ok start)
    (h : (selectDue policy start.memory start.files now).2 = .ok none) :
    ∃ names, restart policy files now =
      .ok ⟨start.memory, start.files.withoutOverrides names⟩ := by
  obtain ⟨names, hstore, -⟩ := @applyDue_idle policy start now fun decision source heq => by
    rw [h] at heq
    cases heq
  refine ⟨names, ?_⟩
  unfold restart
  rw [hstart, ← hstore]
  have houtcome : (applyDue policy start now).outcome = .ok none := by
    unfold applyDue
    rw [h]
  exact congrArg (Except.map _) houtcome

end Restart

/-! ## The files that are left -/

/-- The files that `_select_due` renames. -/
def rejectedNames (policy : UniversePolicy) (store : UniverseStore) : List String :=
  (store.files.overrides.filter (rejects policy store.memory)).map Prod.fst

section Left
variable {policy : UniversePolicy} {store : UniverseStore} {now : Datetime}
  {decision : VersionedDecision} {source : DueSource}

theorem mem_rejectedNames {entry : String × Option CandidateOverride}
    (hm : entry ∈ store.files.overrides) :
    entry.1 ∈ rejectedNames policy store ↔ rejects policy store.memory entry = true := by
  unfold rejectedNames
  constructor
  · intro hname
    obtain ⟨other, hother, hfst⟩ := List.mem_map.mp hname
    obtain ⟨hin, hrejects⟩ := List.mem_filter.mp hother
    have heq : other = entry :=
      Prod.ext hfst (KeyedDict.value_eq_of_mem store.files.named hin hm hfst)
    exact heq ▸ hrejects
  · intro hrejects
    exact List.mem_map_of_mem (List.mem_filter.mpr ⟨hm, hrejects⟩)

theorem not_rejects_of_ok {memory : Membership} {entry : String × Option CandidateOverride}
    (h : readOverride policy memory entry.2 = .ok decision) :
    rejects policy memory entry = false := by
  unfold rejects
  rw [h]

theorem readOverride_of_kept {memory : Membership} {entry : String × Option CandidateOverride}
    (hadmissible : Admissible policy memory entry) (hkept : rejects policy memory entry = false) :
    ∃ decision, readOverride policy memory entry.2 = .ok decision := by
  unfold rejects at hkept
  cases hread : readOverride policy memory entry.2 with
  | error error =>
    rw [hread] at hkept
    exact absurd (hadmissible error hread) (Bool.eq_false_iff.mp hkept)
  | ok decision => exact ⟨decision, rfl⟩

theorem candidateOf_of_rejects {memory : Membership} {entry : String × Option CandidateOverride}
    (h : rejects policy memory entry = true) : candidateOf policy memory now entry = none := by
  unfold rejects at h
  unfold candidateOf
  split at h
  · rfl
  · cases h

theorem filterMap_filter_of {α β : Type} {p : α → Bool} {f : α → Option β} {l : List α}
    (h : ∀ a ∈ l, p a = false → f a = none) : (l.filter p).filterMap f = l.filterMap f := by
  induction l with
  | nil => rfl
  | cons a l ih =>
    have hrest := ih fun b hb => h b (List.mem_cons_of_mem a hb)
    cases hp : p a with
    | true => rw [List.filter_cons_of_pos hp, List.filterMap_cons, List.filterMap_cons, hrest]
    | false =>
      rw [List.filter_cons_of_neg (by simp [hp]), List.filterMap_cons,
        h a List.mem_cons_self hp, hrest]

/-- Renaming files that are refused does not change what is selected. -/
theorem selectDue_withoutOverrides {names : List String}
    (hadmissible : ∀ entry ∈ store.files.overrides, Admissible policy store.memory entry)
    (hnames : ∀ name ∈ names, name ∈ rejectedNames policy store) :
    (selectDue policy store.memory (store.files.withoutOverrides names) now).2 =
      (selectDue policy store.memory store.files now).2 := by
  have hsub : ∀ entry ∈ (store.files.withoutOverrides names).overrides,
      Admissible policy store.memory entry :=
    fun entry hm => hadmissible entry (List.mem_filter.mp hm).1
  rw [selectDue_eq hadmissible, selectDue_eq hsub]
  unfold UniverseFiles.withoutOverrides
  dsimp only
  rw [filterMap_filter_of]
  · rfl
  · intro entry hm hdropped
    have hname : entry.1 ∈ names := by simpa using hdropped
    exact candidateOf_of_rejects ((mem_rejectedNames hm).mp (hnames entry.1 hname))

theorem not_present_withoutOverrides {files : UniverseFiles} (h : ¬ source.Present files)
    (names : List String) : ¬ source.Present (files.withoutOverrides names) := by
  cases source with
  | pending => exact h
  | override name =>
    have hget := @KeyedDict.get_filter String String (Option CandidateOverride) _ id
      (fun name => decide (name ∉ names)) name files.overrides
    unfold DueSource.Present at h ⊢
    intro hpresent
    apply hpresent
    refine hget.trans ?_
    rw [not_not.mp h, ite_self]

theorem not_present_unlink (files : UniverseFiles) (source : DueSource) :
    ¬ source.Present (files.run source.unlink) := by
  cases source with
  | pending => exact fun h => h rfl
  | override name =>
    intro hpresent
    have hget := @KeyedDict.get_pop String String (Option CandidateOverride) _ id name name
      files.overrides
    rw [if_pos rfl] at hget
    exact hpresent hget

theorem not_present_commit (files : UniverseFiles) (memory : Membership)
    (decision : VersionedDecision) (source : DueSource) :
    ¬ source.Present (files.runAll (commitOps memory decision source)) := by
  have hgone := not_present_unlink
    (files.runAll (writeActive decision ++ writeState (memory.apply decision))) source
  cases source with
  | pending => exact fun h => h rfl
  | override name => exact hgone

theorem mem_unlinked {entry : String × Option CandidateOverride} :
    entry ∈ ((store.files.withoutOverrides (rejectedNames policy store)).run
        source.unlink).overrides ↔
      entry ∈ store.files.overrides ∧ rejects policy store.memory entry = false ∧
        .override entry.1 ≠ source := by
  have hkept : entry ∈ (store.files.withoutOverrides (rejectedNames policy store)).overrides ↔
      entry ∈ store.files.overrides ∧ rejects policy store.memory entry = false := by
    unfold UniverseFiles.withoutOverrides
    rw [List.mem_filter, decide_eq_true_eq]
    constructor
    · intro h
      refine ⟨h.1, Bool.eq_false_iff.mpr fun hrejects => ?_⟩
      exact h.2 ((mem_rejectedNames h.1).mpr hrejects)
    · intro h
      refine ⟨h.1, fun hname => ?_⟩
      exact Bool.eq_false_iff.mp h.2 ((mem_rejectedNames h.1).mp hname)
  cases source with
  | pending =>
    refine hkept.trans ⟨fun h => ⟨h.1, h.2, fun heq => by cases heq⟩, fun h => ⟨h.1, h.2.1⟩⟩
  | override name =>
    unfold DueSource.unlink
    rw [UniverseFiles.run_unlinkOverride]
    unfold UniverseFiles.withoutOverrides
    rw [List.mem_filter, decide_eq_true_eq, List.mem_singleton]
    constructor
    · intro h
      obtain ⟨hm, hrejects⟩ := hkept.mp h.1
      exact ⟨hm, hrejects, fun heq => h.2 (DueSource.override.inj heq)⟩
    · intro h
      exact ⟨hkept.mpr ⟨h.1, h.2.1⟩, fun heq => h.2.2 (congrArg DueSource.override heq)⟩

end Left

/-! ## The three parts of a call -/

section Parts
variable {policy : UniversePolicy} {store : UniverseStore} {files : UniverseFiles} {now : Datetime}
  {decision : VersionedDecision} {source : DueSource}
  {memberSince coreSince : List (String × Datetime)}

theorem initializeStore_of_active (hactive : files.active = some decision)
    (hstate : files.state = some (memberSince, coreSince)) :
    initializeStore policy files now = .ok ⟨⟨decision, memberSince, coreSince⟩, files⟩ := by
  unfold initializeStore
  rw [hactive]
  dsimp only
  rw [hstate]

/-- Before `active.json` is written the restart makes the same call again. -/
theorem recovers_uncommitted (hrest : store.AtRest)
    (hselected : (selectDue policy store.memory store.files now).2 =
      .ok (some (decision, source))) {names : List String}
    (hnames : ∀ name ∈ names, name ∈ rejectedNames policy store) :
    Recovers policy store.memory decision source (store.files.withoutOverrides names) now := by
  have hagain : (selectDue policy store.memory (store.files.withoutOverrides names) now).2 =
      .ok (some (decision, source)) :=
    (selectDue_withoutOverrides (selectDue_chosen hselected).admissible hnames).trans hselected
  have hstart := @UniverseStore.AtRest.restart policy _ now (hrest.withoutOverrides names)
  have hcall := @applyDue_chosen policy ⟨store.memory, store.files.withoutOverrides names⟩ now
    decision source hagain
  refine ⟨(applyDue policy ⟨store.memory, store.files.withoutOverrides names⟩ now).store
    (store.files.withoutOverrides names), ?_, ?_, ?_, ?_⟩
  · unfold restart
    rw [hstart]
    exact congrArg (Except.map _) (congrArg DueCall.outcome hcall)
  · rw [hcall]
    rfl
  · rw [hcall]
    unfold DueCall.store
    dsimp only
    rw [UniverseFiles.runAll_append]
    exact not_present_commit _ store.memory decision source
  · intro symbol hm hnew
    rw [hcall]
    exact memberSince_apply hrest.members hm hnew

/-- A decision that is active while its source is on disk was not settled. -/
theorem not_recovers_committed {previous : Membership} (hactive : files.active = some decision)
    (hstate : files.state = some (memberSince, coreSince))
    (hplan : source = .pending → files.pending = some decision)
    (hoverride : ∀ name, source = .override name → ∃ entry ∈ files.overrides,
      candidateOf policy ⟨decision, memberSince, coreSince⟩ now entry ≠ none) :
    ¬ Recovers policy previous decision source files now := by
  intro h
  obtain ⟨final, hrestart, hmemory, hgone, -⟩ := h
  have hstart := @initializeStore_of_active policy files now _ _ _ hactive hstate
  cases restart_cases hstart hrestart with
  | inr hlater =>
    rw [hmemory] at hlater
    exact lt_irrefl _ hlater
  | inl hidle =>
    obtain ⟨hnone, names, rfl⟩ := hidle
    cases source with
    | pending =>
      refine hgone fun hpending => ?_
      have heq := (hplan rfl).symm.trans hpending
      cases heq
    | override name =>
      obtain ⟨entry, hm, hcandidate⟩ := hoverride name rfl
      exact hcandidate
        (((selectDue_none (admissible_of_selectDue hnone)).mp hnone).2 entry hm)

/-- Once the source is gone the restart changes nothing, unless another override is due. -/
theorem recovers_settled_iff {previous : Membership} (hactive : files.active = some decision)
    (hstate : files.state =
      some ((previous.apply decision).memberSince, (previous.apply decision).coreSince))
    (hplan : duePlan policy (previous.apply decision) files now = [])
    (hadmissible : ∀ entry ∈ files.overrides, Admissible policy (previous.apply decision) entry)
    (hgone : ¬ source.Present files)
    (hmembers : ∀ entry ∈ previous.memberSince, entry.1 ∈ previous.active.members) :
    Recovers policy previous decision source files now ↔
      ∀ entry ∈ files.overrides, candidateOf policy (previous.apply decision) now entry = none := by
  have hstart := @initializeStore_of_active policy files now _ _ _ hactive hstate
  constructor
  · intro h
    obtain ⟨final, hrestart, hmemory, -, -⟩ := h
    cases restart_cases hstart hrestart with
    | inr hlater =>
      rw [hmemory] at hlater
      exact absurd hlater (lt_irrefl _)
    | inl hidle => exact ((selectDue_none hadmissible).mp hidle.1).2
  · intro hnone
    obtain ⟨names, hrestart⟩ := restart_idle hstart ((selectDue_none hadmissible).mpr ⟨hplan, hnone⟩)
    refine ⟨_, hrestart, rfl, not_present_withoutOverrides hgone names, ?_⟩
    intro symbol hm hnew
    exact memberSince_apply hmembers hm hnew

/-- Compared with the decision it became, an override passes every check. -/
theorem readmitted (hchosen : Chosen policy store.memory store.files now decision source)
    {name : String} (hsource : source = .override name) :
    ∃ entry ∈ (store.files.withoutOverrides (rejectedNames policy store)).overrides,
      candidateOf policy ⟨decision, memberSince, coreSince⟩ now entry ≠ none := by
  obtain ⟨content, hm, hread⟩ := hchosen.override name hsource
  refine ⟨(name, content), ?_, ?_⟩
  · unfold UniverseFiles.withoutOverrides
    rw [List.mem_filter, decide_eq_true_eq]
    refine ⟨hm, fun hname => ?_⟩
    exact Bool.eq_false_iff.mp (not_rejects_of_ok hread) ((mem_rejectedNames hm).mp hname)
  · obtain ⟨override, rfl, hdecision⟩ := readOverride_ok hread
    obtain ⟨hcore, minimum, hminimum, rfl⟩ := decisionFromOverride_ok hdecision
    obtain ⟨hagain, hok⟩ := @decisionFromOverride_same policy
      ⟨overrideDecision store.memory.active override hcore, memberSince, coreSince⟩ override minimum
      hminimum fun _ => .rfl
    unfold candidateOf readOverride
    dsimp only
    rw [hok]
    dsimp only
    rw [if_pos ⟨Nat.lt_succ_self _, hchosen.due.2⟩]
    exact Option.some_ne_none _

theorem duePlan_settled (hchosen : Chosen policy store.memory store.files now decision source)
    (hpending : files.pending = none ∨ files.pending = store.files.pending) :
    duePlan policy (store.memory.apply decision) files now = [] := by
  refine List.eq_nil_iff_forall_not_mem.mpr fun candidate hm => ?_
  obtain ⟨hplan, -, hautomation, hlater, heffective⟩ := duePlan_mem hm
  cases hpending with
  | inl hnone =>
    rw [hnone] at hplan
    cases hplan
  | inr hsame =>
    rw [hsame] at hplan
    have hdue : IsDue store.memory now candidate.1 := ⟨hchosen.due.1.trans hlater, heffective⟩
    have hin : (candidate.1, DueSource.pending) ∈
        duePlan policy store.memory store.files now := by
      unfold duePlan
      rw [hplan]
      dsimp only
      rw [if_pos ⟨hautomation, hdue⟩]
      exact List.mem_singleton_self _
    exact absurd hlater (not_lt.mpr (hchosen.newest (candidate.1, .pending) hin))

theorem admissible_unlinked (hchosen : Chosen policy store.memory store.files now decision source)
    (memory : Membership) :
    ∀ entry ∈ ((store.files.withoutOverrides (rejectedNames policy store)).run
      source.unlink).overrides, Admissible policy memory entry := by
  intro entry hm
  obtain ⟨hin, hkept, -⟩ := mem_unlinked.mp hm
  obtain ⟨other, hread⟩ := readOverride_of_kept (hchosen.admissible entry hin) hkept
  obtain ⟨override, hcontent, hdecision⟩ := readOverride_ok hread
  obtain ⟨-, minimum, hminimum, -⟩ := decisionFromOverride_ok hdecision
  obtain ⟨name, content⟩ := entry
  subst hcontent
  exact admissible_of_minimum hminimum

theorem recovers_unlinked_iff (hrest : store.AtRest)
    (hchosen : Chosen policy store.memory store.files now decision source)
    (hactive : files.active = some decision)
    (hstate : files.state = some ((store.memory.apply decision).memberSince,
      (store.memory.apply decision).coreSince))
    (hpending : files.pending = none ∨ files.pending = store.files.pending)
    (hfiles : files.overrides = ((store.files.withoutOverrides (rejectedNames policy store)).run
      source.unlink).overrides)
    (hgone : ¬ source.Present files) :
    Recovers policy store.memory decision source files now ↔
      ∀ entry ∈ store.files.overrides, rejects policy store.memory entry = false →
        .override entry.1 ≠ source →
          candidateOf policy (store.memory.apply decision) now entry = none := by
  rw [recovers_settled_iff hactive hstate (duePlan_settled hchosen hpending)
    (hfiles ▸ admissible_unlinked hchosen (store.memory.apply decision)) hgone hrest.members, hfiles]
  constructor
  · intro h entry hm hkept hother
    exact h entry (mem_unlinked.mpr ⟨hm, hkept, hother⟩)
  · intro h entry hm
    obtain ⟨hin, hkept, hother⟩ := mem_unlinked.mp hm
    exact h entry hin hkept hother

end Parts

/-- When a crash after the first `count` file operations of a call does no harm: `active.json` was not
written yet, or the source is gone and no other override that was kept passes the checks against
the decision. -/
def CrashHarmless (policy : UniversePolicy) (store : UniverseStore) (now : Datetime)
    (decision : VersionedDecision) (source : DueSource) (count : Nat) : Prop :=
  count ≤ (selectDue policy store.memory store.files now).1.length ∨
    (selectDue policy store.memory store.files now).1.length + 4 ≤ count ∧
      ∀ entry ∈ store.files.overrides, rejects policy store.memory entry = false →
        .override entry.1 ≠ source →
          candidateOf policy (store.memory.apply decision) now entry = none

/-- A call of `apply_due` that is cut after `count` of its file operations is made good by a restart
exactly when the crash does no harm. -/
theorem applyDue_recovers_iff {policy : UniversePolicy} {store : UniverseStore} {now : Datetime}
    {decision : VersionedDecision} {source : DueSource} {count : Nat} (hrest : store.AtRest)
    (hselected : (selectDue policy store.memory store.files now).2 =
      .ok (some (decision, source)))
    (hcount : count ≤ (applyDue policy store now).ops.length) :
    Recovers policy store.memory decision source
        (store.files.runAll ((applyDue policy store now).ops.take count)) now ↔
      CrashHarmless policy store now decision source count := by
  have hchosen := selectDue_chosen hselected
  have hnames : (selectDue policy store.memory store.files now).1 = rejectedNames policy store :=
    congrArg Prod.fst (selectDue_eq hchosen.admissible)
  rw [applyDue_chosen hselected] at hcount ⊢
  unfold CrashHarmless
  rw [hnames]
  change count ≤ ((rejectedNames policy store).map UniverseOp.rejectOverride ++
    commitOps store.memory decision source).length at hcount
  change Recovers policy store.memory decision source
    (store.files.runAll (((rejectedNames policy store).map UniverseOp.rejectOverride ++
      commitOps store.memory decision source).take count)) now ↔ _
  rw [List.length_append, List.length_map] at hcount
  rw [List.take_append, List.length_map, UniverseFiles.runAll_append, ← List.map_take,
    UniverseFiles.runAll_rejects]
  by_cases hfew : count ≤ (rejectedNames policy store).length
  · rw [Nat.sub_eq_zero_of_le hfew, List.take_zero, UniverseFiles.runAll_nil]
    refine iff_of_true (recovers_uncommitted hrest hselected ?_) (.inl hfew)
    exact fun name hm => List.mem_of_mem_take hm
  · have hfive : (commitOps store.memory decision source).length = 5 := rfl
    rw [List.take_of_length_le (by omega)]
    obtain ⟨written, hwritten⟩ : ∃ written, count = (rejectedNames policy store).length + written :=
      ⟨count - (rejectedNames policy store).length, by omega⟩
    rw [hwritten, Nat.add_sub_cancel_left]
    have hpart : written = 1 ∨ written = 2 ∨ written = 3 ∨ written = 4 ∨ written = 5 := by omega
    have hearly : ¬ (rejectedNames policy store).length + written ≤
        (rejectedNames policy store).length := by omega
    rw [or_iff_right hearly]
    -- until the source is gone the next scan finds it, or the plan stays
    rcases hpart with rfl | rfl | rfl | rfl | rfl
    · exact iff_of_false (not_recovers_committed rfl hrest.state hchosen.plan
        fun name hsource => readmitted hchosen hsource) (fun h => by omega)
    · exact iff_of_false (not_recovers_committed rfl hrest.state hchosen.plan
        fun name hsource => readmitted hchosen hsource) (fun h => by omega)
    · exact iff_of_false (not_recovers_committed rfl rfl hchosen.plan
        fun name hsource => readmitted hchosen hsource) (fun h => by omega)
    · rw [and_iff_right (by omega)]
      have hgone := not_present_unlink ((store.files.withoutOverrides
        (rejectedNames policy store)).runAll
          (writeActive decision ++ writeState (store.memory.apply decision))) source
      cases source with
      | pending => exact recovers_unlinked_iff hrest hchosen rfl rfl (.inl rfl) rfl hgone
      | override name => exact recovers_unlinked_iff hrest hchosen rfl rfl (.inr rfl) rfl hgone
    · rw [and_iff_right (by omega)]
      cases source with
      | pending =>
        exact recovers_unlinked_iff hrest hchosen rfl rfl (.inl rfl) rfl
          (not_present_commit _ store.memory decision .pending)
      | override name =>
        exact recovers_unlinked_iff hrest hchosen rfl rfl (.inl rfl) rfl
          (not_present_commit _ store.memory decision (.override name))

/-! An override that exchanges the two roles of the candidates. -/

section Sample

theorem swappedRoles_selected : ∃ hcore,
    (selectDue samplePolicy sampleMembership (sampleStore swappedRoles).files sampleMidnight).2 =
      .ok (some (overrideDecision sampleMembership.active swappedRoles hcore,
        .override "swap.override.json")) :=
  sampleStore_selected rfl fun symbol => by
    rw [List.mem_append, List.mem_append]
    exact or_comm

theorem swappedRoles_accepted : (sampleStore swappedRoles).files.overrides.filter
    (rejects samplePolicy sampleMembership) = [] := by
  obtain ⟨hcore, hselected⟩ := swappedRoles_selected
  obtain ⟨content, hm, hread⟩ := (selectDue_chosen hselected).override _ rfl
  obtain rfl := (Prod.mk.inj (List.mem_singleton.mp hm)).2
  refine List.filter_eq_nil_iff.mpr fun entry hentry => ?_
  rw [List.mem_singleton.mp hentry]
  exact Bool.eq_false_iff.mp (not_rejects_of_ok hread)

theorem swappedRoles_call : ∃ hcore,
    let decision := overrideDecision sampleMembership.active swappedRoles hcore
    (selectDue samplePolicy sampleMembership (sampleStore swappedRoles).files sampleMidnight).2 =
        .ok (some (decision, .override "swap.override.json")) ∧
      applyDue samplePolicy (sampleStore swappedRoles) sampleMidnight =
        ⟨commitOps sampleMembership decision (.override "swap.override.json"),
          sampleMembership.apply decision, .ok (some decision)⟩ := by
  obtain ⟨hcore, hselected⟩ := swappedRoles_selected
  refine ⟨hcore, hselected, ?_⟩
  have hmemory : (sampleStore swappedRoles).memory = sampleMembership := rfl
  rw [@applyDue_chosen samplePolicy (sampleStore swappedRoles) sampleMidnight _ _ hselected, hmemory,
    swappedRoles_accepted, List.map_nil, List.map_nil, List.nil_append]

/-- A crash before the last write does no harm to it. -/
theorem applyDue_recovers_iff_swapped : ∃ decision,
    Recovers samplePolicy sampleMembership decision (.override "swap.override.json")
      ((sampleStore swappedRoles).files.runAll
        ((applyDue samplePolicy (sampleStore swappedRoles) sampleMidnight).ops.take 4))
      sampleMidnight := by
  obtain ⟨hcore, hselected, hcall⟩ := swappedRoles_call
  have hlength : 4 ≤ (applyDue samplePolicy (sampleStore swappedRoles) sampleMidnight).ops.length := by
    rw [hcall]
    exact Nat.le_succ 4
  refine ⟨_, (applyDue_recovers_iff (sampleStore_atRest swappedRoles) hselected hlength).mpr
    (.inr ⟨?_, ?_⟩)⟩
  · have hnames := congrArg Prod.fst (@selectDue_eq _ _ _ sampleMidnight
      (selectDue_chosen hselected).admissible)
    dsimp only at hnames
    rw [swappedRoles_accepted] at hnames
    exact (congrArg (fun names => List.length names + 4 ≤ 4) hnames).mpr le_rfl
  · intro entry hm _ hother
    rw [List.mem_singleton.mp hm] at hother
    exact absurd rfl hother

/-- A crash after the first write: the restart applies the same override a second time. -/
theorem swappedRoles_twice : ∃ decision final,
    (sampleStore swappedRoles).AtRest ∧
      (applyDue samplePolicy (sampleStore swappedRoles) sampleMidnight).outcome =
        .ok (some decision) ∧
      decision.decisionSequence = 2 ∧
      restart samplePolicy ((sampleStore swappedRoles).files.runAll
        ((applyDue samplePolicy (sampleStore swappedRoles) sampleMidnight).ops.take 1))
          sampleMidnight = .ok final ∧
      final.memory.active.decisionSequence = 3 ∧
      ¬ Recovers samplePolicy sampleMembership decision (.override "swap.override.json")
        ((sampleStore swappedRoles).files.runAll
          ((applyDue samplePolicy (sampleStore swappedRoles) sampleMidnight).ops.take 1))
        sampleMidnight := by
  obtain ⟨hcore, -, hcall⟩ := swappedRoles_call
  rw [hcall]
  have hstart := @initializeStore_of_active samplePolicy
    ((sampleStore swappedRoles).files.runAll
      [.writeActive (overrideDecision sampleMembership.active swappedRoles hcore)])
    sampleMidnight _ _ _ rfl rfl
  obtain ⟨minimum, hminimum⟩ := @minimumJoinedAt_ok samplePolicy swappedRoles.effectiveAt
    (by decide) (by decide)
  obtain ⟨hagain, hdecision⟩ := @decisionFromOverride_same samplePolicy
    ⟨overrideDecision sampleMembership.active swappedRoles hcore, sampleMembership.memberSince,
      sampleMembership.coreSince⟩ swappedRoles minimum hminimum fun _ => .rfl
  have hselected := @selectDue_single samplePolicy _
    ((sampleStore swappedRoles).files.runAll
      [.writeActive (overrideDecision sampleMembership.active swappedRoles hcore)])
    sampleMidnight _ _ _ rfl rfl hdecision ⟨Nat.lt_succ_self _, le_rfl⟩
  obtain ⟨final, hrestart, hmemory⟩ := restart_chosen hstart hselected
  refine ⟨_, final, sampleStore_atRest swappedRoles, rfl, rfl, hrestart, ?_, ?_⟩
  · rw [hmemory]
    rfl
  · intro hrecovers
    obtain ⟨other, hother, hsame, -⟩ := hrecovers
    have hfinal := Except.ok.inj (hrestart.symm.trans hother)
    rw [← hfinal, hmemory] at hsame
    have hsequence := congrArg (fun memory : Membership => memory.active.decisionSequence) hsame
    exact Nat.succ_ne_self _ hsequence

end Sample

end MiryFormal
