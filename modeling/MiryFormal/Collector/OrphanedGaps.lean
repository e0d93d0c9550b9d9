import MiryFormal.Collector.GapHandover
import MiryFormal.Collector.GapOwners
import MiryFormal.Shared.Runs

/-!
# Gaps without an owner

A gap is orphaned when its owner ends without having closed it. A task that goes on hands its gaps
on, so what is left are the steps that end tasks, and a few that overwrite or drop a variable of the
service, or write the state of a gap again that has been closed.
-/

namespace MiryFormal

set_option autoImplicit false

/-! ## The condition -/

namespace CollectorProcess
variable (s : CollectorProcess)

/-- The task may end where it awaits. -/
def Released (finished : List Nat) (index : Nat) : Prop :=
  ∀ task ∈ s.task index, task.body.Released s.openGaps (index ∈ finished)

def MeetsService : ServiceGapEvent → Prop
  | .rolled true =>
      match s.service.operation with
      -- the gap has not been closed since its state was read
      | .rewriting gapId _ => gapId ∈ s.openGaps
      | _ => True
  | .updated =>
      match s.service.operation with
      -- no earlier update is pending, else the gap of the boundary is dropped
      | .updating (some gapId) => gapId ∈ s.openGaps → s.service.pendingMembership = none
      | _ => True
  -- an earlier update that is overwritten has no open gap, or it is being retried
  | .deferred _ _ => ∀ gapId ∈ s.service.pendingGap, gapId ∈ s.openGaps →
      gapId ∈ ServiceGaps.retryGaps s.service.retry
  -- the update that is given up is still pending
  | .retryFailed => ∀ gapId ∈ ServiceGaps.retryGaps s.service.retry, gapId ∈ s.openGaps →
      s.service.pendingGap = some gapId
  | _ => True

/-- No task ends while it holds an open gap, and no service variable with one is overwritten. -/
def Meets : ProcessEvent → Prop
  | .task index event finished => ∀ task ∈ s.task index,
      (event.ends = true → event ≠ .watch (.gapOpened false) ∧
        ∀ gapId ∈ task.body.gaps, gapId ∉ s.openGaps) ∧
      ∀ other ∈ s.stopped index task event, s.Released finished other
  | .cancelled index finished => ∀ task ∈ s.task index,
      ∀ other ∈ s.endedWith index (stopsCancelled task.body), s.Released finished other
  | .raised index finished => ∀ task ∈ s.task index,
      ∀ other ∈ s.endedWith index (stopsRaised task.body), s.Released finished other
  | .groupFailed _ => True
  | .instruments symbols finished => ∀ group ∈ s.running,
      ∀ other ∈ s.removedPolls group symbols, s.Released finished other
  | .service event => s.MeetsService event

instance (finished : List Nat) (index : Nat) : Decidable (s.Released finished index) :=
  inferInstanceAs (Decidable (∀ task ∈ s.task index, _))

instance (event : ServiceGapEvent) : Decidable (s.MeetsService event) := by
  unfold MeetsService
  split
  · split <;> infer_instance
  · split <;> infer_instance
  all_goals infer_instance

instance (event : ProcessEvent) : Decidable (s.Meets event) := by
  unfold Meets
  split <;> infer_instance

/-- `_roll_state_to` writes the state that it has read. -/
theorem nextService_rolled {s t : CollectorProcess} {dayEnded : Bool}
    (hstep : s.nextService (.rolled dayEnded) = some t) :
    ∃ gapId rest, s.service.operation = .rewriting gapId rest ∧
      t = (if dayEnded then { s with openGaps := insert gapId s.openGaps } else s).goTo
        (.rolling rest) := by
  rw [nextService] at hstep
  split at hstep
  · rename_i gapId rest hstage
    exact ⟨gapId, rest, hstage, (Option.some.inj hstep).symm⟩
  · cases hstep

/-- What holds between the steps. -/
structure Kept : Prop where
  owned : s.NoOrphan
  settled : ∀ task, some task ∈ s.tasks → task.body.Settled
  storage : s.service.operation = .openingStorage → s.service.storageGapId = none

end CollectorProcess

/-! ## Tasks that end -/

namespace CollectorProcess
variable {s t : CollectorProcess} {finished : List Nat} {index : Nat} {gapId : Nat}

theorem task_eq_some {task : SourceTask} :
    s.task index = some task ↔ s.tasks[index]? = some (some task) := by
  rw [CollectorProcess.task, Option.join_eq_some_iff]

theorem mem_gaps : gapId ∈ s.gaps ↔ gapId ∈ s.service.gaps ∨ gapId ∈ s.taskGaps := List.mem_append

/-- `t` is `s` with fewer tasks and fewer open gaps. -/
structure Shrinks (s t : CollectorProcess) : Prop where
  openGaps : t.openGaps ⊆ s.openGaps
  tasks : ∀ index task, t.task index = some task → s.task index = some task
  length : t.tasks.length = s.tasks.length
  service : t.service = s.service
  running : t.running = s.running

theorem Shrinks.refl (s : CollectorProcess) : Shrinks s s :=
  ⟨Finset.Subset.refl _, fun _ _ h => h, rfl, rfl, rfl⟩

theorem Shrinks.trans {u : CollectorProcess} (hst : Shrinks s t) (htu : Shrinks t u) :
    Shrinks s u where
  openGaps := htu.openGaps.trans hst.openGaps
  tasks index task h := hst.tasks index task (htu.tasks index task h)
  length := htu.length.trans hst.length
  service := htu.service.trans hst.service
  running := htu.running.trans hst.running

theorem Released.of_shrinks (hshrinks : Shrinks s t) (h : s.Released finished index) :
    t.Released finished index := by
  intro task htask
  have hreleased := h task (hshrinks.tasks index task htask)
  exact ⟨hreleased.opening, fun gapId hgap hm => hreleased.closed gapId hgap (hshrinks.openGaps hm)⟩

theorem endTask_fields (finished : List Nat) {task : SourceTask}
    (htask : s.task index = some task) :
    (s.endTask finished index).openGaps = (if index ∈ finished then
        (task.body.finishCall s.nextGap).apply s.openGaps else s.openGaps) ∧
      (s.endTask finished index).tasks = s.tasks.set index none ∧
      (s.endTask finished index).service = s.service ∧
      (s.endTask finished index).running = s.running := by
  unfold endTask
  rw [htask]
  dsimp only
  split <;> exact ⟨rfl, rfl, rfl, rfl⟩

/-- A task that is released takes no open gap with it. -/
theorem endTask_kept (h : s.Kept) (hreleased : s.Released finished index) :
    (s.endTask finished index).Kept ∧ Shrinks s (s.endTask finished index) := by
  cases htask : s.task index with
  | none =>
    have hsame : s.endTask finished index = s := by
      unfold endTask
      rw [htask]
    rw [hsame]
    exact ⟨h, .refl s⟩
  | some task =>
    obtain ⟨hopen, htasks, hservice, hrunning⟩ := endTask_fields finished htask
    have hleft : ∀ gapId ∈ (s.endTask finished index).openGaps,
        gapId ∈ s.openGaps ∧ gapId ∉ task.body.gaps := by
      intro gapId hm
      rw [hopen] at hm
      exact (hreleased task htask).left hm
    constructor
    · refine ⟨fun gapId hm => ?_, fun other hother => ?_, ?_⟩
      · obtain ⟨hm, hnot⟩ := hleft gapId hm
        rw [mem_gaps, hservice, taskGaps, htasks]
        refine (mem_gaps.mp (h.owned gapId hm)).imp_right fun hgap => ?_
        refine (mem_keptIn_set index none hgap).resolve_right fun ⟨other, hother, hgap⟩ => hnot ?_
        rw [task_eq_some.mp htask] at hother
        cases hother
        exact hgap
      · rw [htasks] at hother
        exact h.settled other ((List.mem_or_eq_of_mem_set hother).resolve_right nofun)
      · rw [hservice]
        exact h.storage
    · refine ⟨fun gapId hm => (hleft gapId hm).1, fun other task' htask' => ?_, ?_, hservice,
        hrunning⟩
      · rw [task_eq_some, htasks, List.getElem?_set] at htask'
        rw [task_eq_some]
        split at htask'
        · split at htask' <;> cases htask'
        · exact htask'
      · rw [htasks, List.length_set]

theorem endTasks_kept {indices : List Nat} (h : s.Kept)
    (hreleased : ∀ index ∈ indices, s.Released finished index) :
    (s.endTasks finished indices).Kept ∧ Shrinks s (s.endTasks finished indices) := by
  induction indices generalizing s with
  | nil => exact ⟨h, .refl s⟩
  | cons index indices ih =>
    obtain ⟨hkept, hshrinks⟩ := endTask_kept h (hreleased index List.mem_cons_self)
    obtain ⟨hkept', hshrinks'⟩ := ih hkept fun other hm =>
      (hreleased other (List.mem_cons_of_mem _ hm)).of_shrinks hshrinks
    exact ⟨hkept', hshrinks.trans hshrinks'⟩

/-! ## One step of a task in the process -/

theorem settled_append {more : List (Option SourceTask)} {tasks : List (Option SourceTask)}
    (h : ∀ task, some task ∈ tasks → task.body.Settled)
    (hmore : ∀ task, some task ∈ more → task.body.Settled) :
    ∀ task, some task ∈ tasks ++ more → task.body.Settled :=
  fun task hm => (List.mem_append.mp hm).elim (h task) (hmore task)

/-- A task that goes on hands its gaps on. -/
theorem stepTask_kept {task : SourceTask} {move : TaskMove} (h : s.Kept)
    (hlt : index < s.tasks.length)
    (htask : ∀ other, s.task index = some other → other = task)
    (hsound : move.Sound task.body.gaps) : (s.stepTask index task move).Kept := by
  have htasks : (s.stepTask index task move).tasks =
      s.tasks.set index (move.after.map (SourceTask.mk task.group)) ++
        move.starts.map fun body => some (SourceTask.mk task.group body) := rfl
  have hbodies : ∀ gapId ∈ move.bodies.flatMap TaskBody.gaps,
      gapId ∈ (s.stepTask index task move).taskGaps := by
    intro gapId hm
    obtain ⟨body, hbody, hm⟩ := List.mem_flatMap.mp hm
    refine mem_keptIn.mpr ⟨⟨task.group, body⟩, ?_, hm⟩
    rw [htasks]
    rcases List.mem_append.mp hbody with hafter | hstart
    · rw [Option.mem_toList.mp hafter]
      exact List.mem_append_left _ (List.mem_set hlt _)
    · exact List.mem_append_right _ (List.mem_map_of_mem hstart)
  refine ⟨?_, ?_, h.storage⟩
  · refine h.owned.hand ⟨fun gapId hm => ?_, fun gapId heq => ?_⟩
    · rcases mem_gaps.mp hm with hm | hm
      · exact .inl (mem_gaps.mpr (.inl hm))
      · rcases mem_keptIn_set index (move.after.map (SourceTask.mk task.group)) hm with
          hm | ⟨other, hother, hm⟩
        · refine .inl (mem_gaps.mpr (.inr ?_))
          rw [taskGaps, htasks, keptIn_append]
          exact List.mem_append_left _ hm
        · rw [htask other (task_eq_some.mpr hother)] at hm
          exact (hsound.hands.kept gapId hm).imp_left fun hm =>
            mem_gaps.mpr (.inr (hbodies gapId hm))
    · exact mem_gaps.mpr (.inr (hbodies gapId (hsound.hands.taken gapId heq)))
  · intro other hm
    rw [htasks] at hm
    rcases List.mem_append.mp hm with hm | hm
    · rcases List.mem_or_eq_of_mem_set hm with hm | heq
      · exact h.settled other hm
      · obtain ⟨body, hafter, rfl⟩ := Option.map_eq_some_iff.mp heq.symm
        exact hsound.settled body (List.mem_append_left _ (Option.mem_toList.mpr hafter))
    · obtain ⟨body, hbody, heq⟩ := List.mem_map.mp hm
      cases heq
      exact hsound.settled body (List.mem_append_right _ hbody)

/-- A task that holds no open gap may return. -/
theorem stepTask_ended {task : SourceTask} (h : s.Kept)
    (htask : ∀ other, s.task index = some other → other = task)
    (hnone : ∀ gapId ∈ task.body.gaps, gapId ∉ s.openGaps) :
    (s.stepTask index task { after := none }).Kept := by
  have htasks : (s.stepTask index task { after := none }).tasks = s.tasks.set index none :=
    List.append_nil _
  refine ⟨fun gapId hm => ?_, fun other hm => ?_, h.storage⟩
  · have hm : gapId ∈ s.openGaps := hm
    refine mem_gaps.mpr ((mem_gaps.mp (h.owned gapId hm)).imp_right fun hgap => ?_)
    rw [taskGaps, htasks]
    refine (mem_keptIn_set index none hgap).resolve_right fun ⟨other, hother, hgap⟩ => ?_
    rw [htask other (task_eq_some.mpr hother)] at hgap
    exact hnone gapId hgap hm
  · rw [htasks] at hm
    exact h.settled other ((List.mem_or_eq_of_mem_set hm).resolve_right nofun)

theorem nextTask_kept {event : TaskEvent} (h : s.Kept)
    (hmeets : s.Meets (.task index event finished))
    (hstep : s.nextTask index event finished = some t) : t.Kept := by
  unfold nextTask at hstep
  obtain ⟨task, htask, hstep⟩ := Option.bind_eq_some_iff.mp hstep
  obtain ⟨hends, hstopped⟩ := hmeets task htask
  obtain ⟨hkept, hshrinks⟩ := endTasks_kept h hstopped
  obtain ⟨move, hmove, hstep⟩ := Option.bind_eq_some_iff.mp hstep
  cases hstep
  have hlt : index < (s.endTasks finished (s.stopped index task event)).tasks.length := by
    rw [hshrinks.length]
    exact (List.getElem?_eq_some_iff.mp (task_eq_some.mp htask)).1
  have hsame : ∀ other, (s.endTasks finished (s.stopped index task event)).task index =
      some other → other = task := by
    intro other hother
    exact Option.some.inj ((hshrinks.tasks index other hother).symm.trans htask)
  have hsettled : task.body.Settled :=
    h.settled task (List.mem_of_getElem? (task_eq_some.mp htask))
  cases hend : event.ends with
  | false => exact stepTask_kept hkept hlt hsame (TaskBody.next_sound hsettled hmove hend)
  | true =>
    obtain ⟨hpresent, hnone⟩ := hends hend
    rw [TaskBody.next_ends hmove hend hpresent]
    exact stepTask_ended hkept hsame fun gapId hgap hm => hnone gapId hgap (hshrinks.openGaps hm)

/-! ## Tasks that are cancelled, and tasks that are started -/

theorem failGroup_kept (h : s.Kept) (group : Nat) : (s.failGroup group).Kept :=
  ⟨h.owned, h.settled, h.storage⟩

theorem nextCancelled_kept (h : s.Kept) (hmeets : s.Meets (.cancelled index finished))
    (hstep : s.nextCancelled index finished = some t) : t.Kept := by
  unfold nextCancelled at hstep
  obtain ⟨task, htask, hstep⟩ := Option.bind_eq_some_iff.mp hstep
  dsimp only at hstep
  split at hstep
  · cases hstep
    exact (endTasks_kept h (hmeets task htask)).1
  · cases hstep

theorem nextRaised_kept (h : s.Kept) (hmeets : s.Meets (.raised index finished))
    (hstep : s.nextRaised index finished = some t) : t.Kept := by
  unfold nextRaised at hstep
  obtain ⟨task, htask, hstep⟩ := Option.bind_eq_some_iff.mp hstep
  split at hstep
  · cases hstep
    exact failGroup_kept (endTasks_kept h (hmeets task htask)).1 _
  · cases hstep

theorem settled_pollTasks (group : Nat) (symbols : List String) :
    ∀ task, some task ∈ pollTasks group symbols → task.body.Settled := by
  intro task hm
  obtain ⟨symbol, -, heq⟩ := List.mem_map.mp hm
  cases heq
  exact nofun

/-- New tasks hold no gaps. -/
theorem append_kept {more : List (Option SourceTask)} (h : s.Kept)
    (hmore : ∀ task, some task ∈ more → task.body.Settled) :
    ({ s with tasks := s.tasks ++ more } : CollectorProcess).Kept := by
  refine ⟨fun gapId hm => ?_, settled_append h.settled hmore, h.storage⟩
  refine mem_gaps.mpr ((mem_gaps.mp (h.owned gapId hm)).imp_right fun hgap => ?_)
  rw [taskGaps, keptIn_append]
  exact List.mem_append_left _ hgap

theorem nextInstruments_kept {symbols : List String} (h : s.Kept)
    (hmeets : s.Meets (.instruments symbols finished))
    (hstep : s.nextInstruments symbols finished = some t) : t.Kept := by
  unfold nextInstruments at hstep
  obtain ⟨group, hrunning, hstep⟩ := Option.bind_eq_some_iff.mp hstep
  cases hstep
  exact append_kept (endTasks_kept h (hmeets group hrunning)).1 (settled_pollTasks _ _)

theorem settled_launchTasks (group : Nat) (launch : Launch) :
    ∀ task, some task ∈ launchTasks group launch → task.body.Settled := by
  refine settled_append (settled_append (fun task hm => ?_) fun task hm => ?_)
    (settled_pollTasks _ _)
  · obtain ⟨depthStreams, -, hm⟩ := List.mem_flatMap.mp hm
    rcases List.mem_pair.mp hm with heq | heq <;> cases heq <;> trivial
  · rcases List.mem_pair.mp hm with heq | heq <;> cases heq <;> exact nofun

theorem startSources_kept (h : s.Kept) (launch : Launch) : (s.startSources launch).Kept := by
  have happend := append_kept h (settled_launchTasks s.groups.length launch)
  exact ⟨happend.owned, happend.settled, happend.storage⟩

theorem stopSources_kept (h : s.Kept) : s.stopSources.Kept := by
  unfold stopSources
  split
  · exact h
  · exact ⟨h.owned, h.settled, h.storage⟩

/-! ## One step of the service -/

theorem mem_serviceGaps {service : ServiceGaps} :
    gapId ∈ service.gaps ↔ service.storageGapId = some gapId ∨ gapId ∈ service.staleGaps ∨
      service.pendingGap = some gapId ∨ gapId ∈ ServiceGaps.operationGaps service.operation ∨
        gapId ∈ ServiceGaps.retryGaps service.retry := by
  simp only [ServiceGaps.gaps, List.mem_append, Option.mem_toList, or_assoc]

/-- A step of the service alone hands its open gaps on. -/
theorem service_kept (change : Change Nat) (h : s.Kept) (htasks : t.tasks = s.tasks)
    (hopen : t.openGaps = change.apply s.openGaps)
    (hkept : ∀ gapId ∈ s.service.gaps, gapId ∈ s.openGaps →
      gapId ∈ t.service.gaps ∨ change = .closed gapId)
    (htaken : ∀ gapId, change = .opened gapId → gapId ∈ t.service.gaps)
    (hstorage : t.service.operation = .openingStorage → t.service.storageGapId = none) :
    t.Kept := by
  refine ⟨?_, ?_, hstorage⟩
  · have hopened : InCustody s.openGaps (s.gaps.filter (· ∈ s.openGaps)) :=
      h.owned.mono fun gapId hgap hm => List.mem_filter.mpr ⟨hgap, decide_eq_true hm⟩
    show InCustody _ _
    rw [hopen]
    refine hopened.hand ⟨fun gapId hm => ?_, fun gapId heq => ?_⟩
    · obtain ⟨hgap, hm⟩ := List.mem_filter.mp hm
      rcases mem_gaps.mp hgap with hgap | hgap
      · exact (hkept gapId hgap (of_decide_eq_true hm)).imp_left fun hm => mem_gaps.mpr (.inl hm)
      · refine .inl (mem_gaps.mpr (.inr ?_))
        rw [taskGaps, htasks]
        exact hgap
    · exact mem_gaps.mpr (.inl (htaken gapId heq))
  · rw [htasks]
    exact h.settled

/-- The locked loop goes on, and keeps its local gaps. -/
theorem operation_kept {operation : OperationStage} (change : Change Nat) (h : s.Kept)
    (htasks : t.tasks = s.tasks) (hopen : t.openGaps = change.apply s.openGaps)
    (hservice : t.service = { s.service with operation })
    (hgaps : ∀ gapId ∈ ServiceGaps.operationGaps s.service.operation, gapId ∈ s.openGaps →
      gapId ∈ t.service.gaps ∨ change = .closed gapId)
    (htaken : ∀ gapId, change = .opened gapId → gapId ∈ ServiceGaps.operationGaps operation)
    (hstorage : operation = .openingStorage → s.service.storageGapId = none) : t.Kept := by
  refine service_kept change h htasks hopen (fun gapId hm hmem => ?_) (fun gapId heq => ?_) ?_
  · rcases mem_serviceGaps.mp hm with hm | hm | hm | hm | hm
    · rw [hservice]
      exact .inl (mem_serviceGaps.mpr (.inl hm))
    · rw [hservice]
      exact .inl (mem_serviceGaps.mpr (.inr (.inl hm)))
    · rw [hservice]
      exact .inl (mem_serviceGaps.mpr (.inr (.inr (.inl hm))))
    · exact hgaps gapId hm hmem
    · rw [hservice]
      exact .inl (mem_serviceGaps.mpr (.inr (.inr (.inr (.inr hm)))))
  · rw [hservice]
    exact mem_serviceGaps.mpr (.inr (.inr (.inr (.inl (htaken gapId heq)))))
  · rw [hservice]
    exact hstorage

theorem goTo_kept {operation : OperationStage} (h : s.Kept)
    (hgaps : ∀ gapId ∈ ServiceGaps.operationGaps s.service.operation, gapId ∈ s.openGaps →
      gapId ∈ (s.goTo operation).service.gaps)
    (hstorage : operation = .openingStorage → s.service.storageGapId = none) :
    (s.goTo operation).Kept :=
  operation_kept .keep h rfl rfl rfl (fun gapId hm hmem => .inl (hgaps gapId hm hmem)) nofun
    hstorage

theorem goTo_of_none {operation : OperationStage} (h : s.Kept)
    (hnone : ServiceGaps.operationGaps s.service.operation = [])
    (hstorage : operation = .openingStorage → s.service.storageGapId = none) :
    (s.goTo operation).Kept := by
  refine goTo_kept h (fun gapId hm => ?_) hstorage
  rw [hnone] at hm
  cases hm

theorem stopSources_service : s.stopSources.service = s.service := by
  unfold stopSources
  split <;> rfl

theorem limited_kept (h : s.Kept) (hnone : ServiceGaps.operationGaps s.service.operation = []) :
    s.limited.Kept := by
  unfold limited
  split
  · exact goTo_of_none h hnone nofun
  · refine goTo_of_none (stopSources_kept h) ?_ nofun
    rw [stopSources_service]
    exact hnone

/-- The retries of the membership loop go on. -/
theorem retry_kept {pendingMembership : Option (PendingMembership String)} {retry : RetryStage}
    (change : Change Nat) (h : s.Kept) (htasks : t.tasks = s.tasks)
    (hopen : t.openGaps = change.apply s.openGaps)
    (hservice : t.service = { s.service with
      pendingMembership
      retry })
    (hkept : ∀ gapId, s.service.pendingGap = some gapId ∨
      gapId ∈ ServiceGaps.retryGaps s.service.retry → gapId ∈ s.openGaps →
        t.service.pendingGap = some gapId ∨ gapId ∈ ServiceGaps.retryGaps retry ∨
          change = .closed gapId)
    (htaken : ∀ gapId, change ≠ .opened gapId) : t.Kept := by
  refine service_kept change h htasks hopen (fun gapId hm hmem => ?_)
    (fun gapId heq => absurd heq (htaken gapId)) ?_
  · have hretried : t.service.pendingGap = some gapId ∨
        gapId ∈ ServiceGaps.retryGaps retry ∨ change = .closed gapId →
          gapId ∈ t.service.gaps ∨ change = .closed gapId := by
      rintro (hm | hm | heq)
      · exact .inl (mem_serviceGaps.mpr (.inr (.inr (.inl hm))))
      · refine .inl (mem_serviceGaps.mpr (.inr (.inr (.inr (.inr ?_)))))
        rw [hservice]
        exact hm
      · exact .inr heq
    rcases mem_serviceGaps.mp hm with hm | hm | hm | hm | hm
    · rw [hservice]
      exact .inl (mem_serviceGaps.mpr (.inl hm))
    · rw [hservice]
      exact .inl (mem_serviceGaps.mpr (.inr (.inl hm)))
    · exact hretried (hkept gapId (.inl hm) hmem)
    · rw [hservice]
      exact .inl (mem_serviceGaps.mpr (.inr (.inr (.inr (.inl hm)))))
    · exact hretried (hkept gapId (.inr hm) hmem)
  · rw [hservice]
    exact h.storage

/-- A pending update that is cleared is the one whose gap has been closed. -/
theorem clearPending_pendingGap {pending : PendingMembership String}
    (hm : s.service.pendingGap = some gapId) :
    (s.clearPending pending).service.pendingGap = some gapId ∨ pending.gap = some gapId := by
  unfold clearPending ServiceGaps.pendingGap
  dsimp only
  split
  · rename_i heq
    rw [ServiceGaps.pendingGap, heq] at hm
    exact .inr hm
  · exact .inl hm

theorem operationGaps_of {operation : OperationStage} (hstage : s.service.operation = operation)
    (hnone : ServiceGaps.operationGaps operation = []) :
    ServiceGaps.operationGaps s.service.operation = [] := by
  rw [hstage]
  exact hnone

/-- `_stale_gaps` becomes a local variable. -/
theorem sourcesReady_kept (h : s.Kept) (hstep : s.nextService .sourcesReady = some t) :
    t.Kept := by
  rw [nextService] at hstep
  split at hstep
  · rename_i hstage
    cases hstep
    refine service_kept .keep h rfl rfl (fun gapId hm _ => .inl ?_) nofun nofun
    rcases mem_serviceGaps.mp hm with hm | hm | hm | hm | hm
    · exact mem_serviceGaps.mpr (.inl hm)
    · exact mem_serviceGaps.mpr (.inr (.inr (.inr (.inl hm))))
    · exact mem_serviceGaps.mpr (.inr (.inr (.inl hm)))
    · rw [operationGaps_of hstage rfl] at hm
      cases hm
    · exact mem_serviceGaps.mpr (.inr (.inr (.inr (.inr hm))))
  · cases hstep

theorem staleDone_kept (h : s.Kept) (hstep : s.nextService .staleDone = some t) : t.Kept := by
  rw [nextService] at hstep
  split at hstep
  · rename_i boot old stale hstage
    cases hstep
    split
    · rename_i hstorage
      refine goTo_kept h (fun gapId hm _ => ?_) nofun
      rw [hstage] at hm
      rcases List.mem_cons.mp hm with rfl | hm
      · exact mem_serviceGaps.mpr (.inl hstorage)
      · exact mem_serviceGaps.mpr (.inr (.inr (.inr (.inl hm))))
    · refine operation_kept (.closed old) h rfl rfl rfl (fun gapId hm _ => ?_) nofun nofun
      rw [hstage] at hm
      rcases List.mem_cons.mp hm with rfl | hm
      · exact .inr rfl
      · exact .inl (mem_serviceGaps.mpr (.inr (.inr (.inr (.inl hm)))))
  · cases hstep

theorem storageChecked_kept {hardLimited : Bool} {launch : Launch} (h : s.Kept)
    (hstep : s.nextService (.storageChecked hardLimited launch) = some t) : t.Kept := by
  rw [nextService] at hstep
  split at hstep
  · rename_i hstage
    split at hstep
    · cases hstep
    · split at hstep
      · cases hstep
        split
        · rename_i hstorage
          exact goTo_of_none h (operationGaps_of hstage rfl) fun _ => hstorage
        · exact limited_kept h (operationGaps_of hstage rfl)
      · cases hstep
        split
        · exact h
        · split
          · exact goTo_of_none (startSources_kept h launch) (operationGaps_of hstage rfl) nofun
          · exact goTo_of_none h (operationGaps_of hstage rfl) nofun
  · cases hstep

/-- `_storage_gap_id` changes with the state file of its gap. -/
theorem storageGap_kept {operation : OperationStage} {storageGapId : Option Nat}
    (change : Change Nat) (h : s.Kept) (htasks : t.tasks = s.tasks)
    (hopen : t.openGaps = change.apply s.openGaps)
    (hservice : t.service = { s.service with
      storageGapId
      operation })
    (hnone : ServiceGaps.operationGaps s.service.operation = [])
    (hkept : ∀ gapId, s.service.storageGapId = some gapId →
      storageGapId = some gapId ∨ change = .closed gapId)
    (htaken : ∀ gapId, change = .opened gapId → storageGapId = some gapId)
    (hstorage : operation ≠ .openingStorage) : t.Kept := by
  refine service_kept change h htasks hopen (fun gapId hm _ => ?_) (fun gapId heq => ?_) ?_
  · rw [hservice]
    rcases mem_serviceGaps.mp hm with hm | hm | hm | hm | hm
    · exact (hkept gapId hm).imp_left fun hm => mem_serviceGaps.mpr (.inl hm)
    · exact .inl (mem_serviceGaps.mpr (.inr (.inl hm)))
    · exact .inl (mem_serviceGaps.mpr (.inr (.inr (.inl hm))))
    · rw [hnone] at hm
      cases hm
    · exact .inl (mem_serviceGaps.mpr (.inr (.inr (.inr (.inr hm)))))
  · rw [hservice]
    exact mem_serviceGaps.mpr (.inl (htaken gapId heq))
  · rw [hservice]
    exact fun heq => absurd heq hstorage

theorem storageOpened_kept (h : s.Kept) (hstep : s.nextService .storageOpened = some t) :
    t.Kept := by
  rw [nextService] at hstep
  split at hstep
  · rename_i hstage
    have hkept : ∀ gapId, s.service.storageGapId = some gapId →
        some s.nextGap = some gapId ∨ Change.opened s.nextGap = .closed gapId := by
      intro gapId hm
      rw [h.storage hstage] at hm
      cases hm
    have htaken : ∀ gapId, Change.opened s.nextGap = .opened gapId →
        some s.nextGap = some gapId := by
      rintro _ ⟨⟩
      rfl
    cases hstep
    unfold limited
    split
    · exact storageGap_kept (.opened s.nextGap) h rfl rfl rfl (operationGaps_of hstage rfl)
        hkept htaken nofun
    · rename_i hrunning
      obtain ⟨group, hgroup⟩ := Option.ne_none_iff_exists'.mp hrunning
      unfold stopSources
      rw [hgroup]
      exact storageGap_kept (.opened s.nextGap) h rfl rfl rfl (operationGaps_of hstage rfl)
        hkept htaken nofun
  · cases hstep

theorem storageClosed_kept (h : s.Kept) (hstep : s.nextService .storageClosed = some t) :
    t.Kept := by
  rw [nextService] at hstep
  split at hstep
  · rename_i old hstage hstorage
    cases hstep
    refine storageGap_kept (.closed old) h rfl rfl rfl (operationGaps_of hstage rfl)
      (fun gapId hm => ?_) nofun nofun
    rw [hstorage] at hm
    cases hm
    exact .inr rfl
  · cases hstep

/-- A state that is written again is one that is there. -/
theorem rolled_kept {dayEnded : Bool} (h : s.Kept) (hmeets : s.MeetsService (.rolled dayEnded))
    (hstep : s.nextService (.rolled dayEnded) = some t) : t.Kept := by
  obtain ⟨gapId, rest, hstage, rfl⟩ := nextService_rolled hstep
  cases dayEnded with
  | false => exact goTo_of_none h (operationGaps_of hstage rfl) nofun
  | true =>
    rw [MeetsService, hstage] at hmeets
    have hsame : insert gapId s.openGaps = s.openGaps := Finset.insert_eq_of_mem hmeets
    refine operation_kept .keep h rfl hsame rfl (fun other hm => ?_) nofun nofun
    rw [operationGaps_of hstage rfl] at hm
    cases hm

theorem boundaryOpened_kept (h : s.Kept) (hstep : s.nextService .boundaryOpened = some t) :
    t.Kept := by
  rw [nextService] at hstep
  split at hstep
  · rename_i hstage
    cases hstep
    refine operation_kept (.opened s.nextGap) h rfl rfl rfl (fun gapId hm => ?_)
      (fun gapId heq => ?_) nofun
    · rw [operationGaps_of hstage rfl] at hm
      cases hm
    · cases heq
      exact List.mem_singleton_self _
  · cases hstep

/-- The gap of a boundary is closed, unless another update is pending. -/
theorem updated_kept (h : s.Kept) (hmeets : s.MeetsService .updated)
    (hstep : s.nextService .updated = some t) : t.Kept := by
  rw [nextService] at hstep
  split at hstep
  · rename_i boundaryGap hstage
    cases hstep
    cases boundaryGap with
    | none => exact goTo_of_none h (operationGaps_of hstage rfl) nofun
    | some old =>
      dsimp only
      split
      · refine goTo_kept h (fun gapId hm _ => ?_) nofun
        rw [hstage] at hm
        exact mem_serviceGaps.mpr (.inr (.inr (.inr (.inl hm))))
      · rename_i hpending
        refine goTo_kept h (fun gapId hm hopen => ?_) nofun
        rw [hstage] at hm
        cases List.mem_singleton.mp hm
        rw [MeetsService, hstage] at hmeets
        exact absurd (hmeets hopen) hpending
  · cases hstep

theorem deferred_kept {members changed : List String} (h : s.Kept)
    (hmeets : s.MeetsService (.deferred members changed))
    (hstep : s.nextService (.deferred members changed) = some t) : t.Kept := by
  rw [nextService] at hstep
  split at hstep
  · rename_i boundaryGap hstage
    cases hstep
    refine service_kept .keep h rfl rfl (fun gapId hm hopen => .inl ?_) nofun nofun
    rcases mem_serviceGaps.mp hm with hm | hm | hm | hm | hm
    · exact mem_serviceGaps.mpr (.inl hm)
    · exact mem_serviceGaps.mpr (.inr (.inl hm))
    · exact mem_serviceGaps.mpr (.inr (.inr (.inr (.inr (hmeets gapId hm hopen)))))
    · rw [hstage] at hm
      exact mem_serviceGaps.mpr (.inr (.inr (.inl (Option.mem_toList.mp hm))))
    · exact mem_serviceGaps.mpr (.inr (.inr (.inr (.inr hm))))
  · cases hstep

theorem boundaryClosed_kept (h : s.Kept) (hstep : s.nextService .boundaryClosed = some t) :
    t.Kept := by
  rw [nextService] at hstep
  split at hstep
  · rename_i old hstage
    cases hstep
    refine operation_kept (.closed old) h rfl rfl rfl (fun gapId hm _ => .inr ?_) nofun nofun
    rw [hstage] at hm
    cases List.mem_singleton.mp hm
    rfl
  · cases hstep

theorem retried_kept (h : s.Kept) (hstep : s.nextService .retried = some t) : t.Kept := by
  rw [nextService] at hstep
  split at hstep
  · rename_i pending hretry hpending
    cases hstep
    refine retry_kept .keep h rfl rfl rfl (fun gapId hm _ => ?_) nofun
    rcases hm with hm | hm
    · exact .inl hm
    · rw [hretry] at hm
      cases hm
  · cases hstep

theorem retryFailed_kept (h : s.Kept) (hmeets : s.MeetsService .retryFailed)
    (hstep : s.nextService .retryFailed = some t) : t.Kept := by
  rw [nextService] at hstep
  split at hstep
  · cases hstep
    refine retry_kept .keep h rfl rfl rfl (fun gapId hm hopen => ?_) nofun
    exact .inl (hm.elim id fun hm => hmeets gapId hm hopen)
  · cases hstep

theorem retryUpdated_kept (h : s.Kept) (hstep : s.nextService .retryUpdated = some t) :
    t.Kept := by
  rw [nextService] at hstep
  split at hstep
  · rename_i pending hretry
    cases hstep
    split
    · rename_i hgap
      refine retry_kept .keep h rfl rfl rfl (fun gapId hm _ => ?_) nofun
      rcases hm with hm | hm
      · refine (clearPending_pendingGap hm).imp_right fun hm => ?_
        rw [hgap] at hm
        cases hm
      · rw [hretry] at hm
        rw [ServiceGaps.retryGaps, hgap] at hm
        cases hm
    · refine retry_kept .keep h rfl rfl rfl (fun gapId hm _ => ?_) nofun
      rw [hretry] at hm
      exact hm.imp_right .inl
  · cases hstep

theorem retryClosed_kept (h : s.Kept) (hstep : s.nextService .retryClosed = some t) :
    t.Kept := by
  rw [nextService] at hstep
  split at hstep
  · rename_i pending hretry
    obtain ⟨old, hgap, rfl⟩ := Option.map_eq_some_iff.mp hstep
    have hsame : ∀ {gapId}, pending.gap = some gapId → Change.closed old = .closed gapId := by
      intro gapId hm
      rw [hgap] at hm
      cases hm
      rfl
    refine retry_kept (.closed old) h rfl rfl rfl (fun gapId hm _ => ?_) nofun
    rcases hm with hm | hm
    · exact (clearPending_pendingGap (s := s.change (.closed old)) hm).imp_right fun hm =>
        .inr (hsame hm)
    · rw [hretry] at hm
      exact .inr (.inr (hsame (Option.mem_toList.mp hm)))
  · cases hstep

theorem nextService_kept {event : ServiceGapEvent} (h : s.Kept) (hmeets : s.MeetsService event)
    (hstep : s.nextService event = some t) : t.Kept := by
  cases event with
  | sourcesReady => exact sourcesReady_kept h hstep
  | staleDone => exact staleDone_kept h hstep
  | storageChecked hardLimited launch => exact storageChecked_kept h hstep
  | storageOpened => exact storageOpened_kept h hstep
  | storageClosed => exact storageClosed_kept h hstep
  | rolled dayEnded => exact rolled_kept h hmeets hstep
  | boundaryOpened => exact boundaryOpened_kept h hstep
  | updated => exact updated_kept h hmeets hstep
  | deferred members changed => exact deferred_kept h hmeets hstep
  | boundaryClosed => exact boundaryClosed_kept h hstep
  | retried => exact retried_kept h hstep
  | retryFailed => exact retryFailed_kept h hmeets hstep
  | retryUpdated => exact retryUpdated_kept h hstep
  | retryClosed => exact retryClosed_kept h hstep
  | bootChecked hardLimited launch =>
    rw [nextService] at hstep
    split at hstep
    · rename_i hstage
      cases hstep
      split
      · exact goTo_of_none h (operationGaps_of hstage rfl) nofun
      · exact goTo_of_none (startSources_kept h launch) (operationGaps_of hstage rfl) nofun
    · cases hstep
  | sourcesTimedOut =>
    rw [nextService] at hstep
    split at hstep
    · rename_i hstage
      cases hstep
      refine goTo_of_none (stopSources_kept h) ?_ nofun
      rw [stopSources_service]
      exact operationGaps_of hstage rfl
    · cases hstep
  | sourcesStopped =>
    rw [nextService] at hstep
    split at hstep
    · rename_i hstage hrunning
      split at hstep
      · cases hstep
        exact goTo_of_none ⟨h.owned, h.settled, h.storage⟩ (operationGaps_of hstage rfl) nofun
      · cases hstep
    · cases hstep
  | rollBegun =>
    rw [nextService] at hstep
    split at hstep
    · rename_i hstage
      split at hstep
      · cases hstep
        exact goTo_of_none h (operationGaps_of hstage rfl) nofun
      · cases hstep
    · cases hstep
  | marked =>
    rw [nextService] at hstep
    split at hstep
    · rename_i hstage
      cases hstep
      refine goTo_of_none h (operationGaps_of hstage rfl) ?_
      split <;> exact nofun
    · cases hstep
  | decided outcome =>
    cases outcome <;>
    · rw [nextService] at hstep
      split at hstep
      · rename_i hstage
        cases hstep
        exact goTo_of_none h (operationGaps_of hstage rfl) nofun
      · cases hstep
  | staleFinished | midnight | rolloverDone | sealed =>
    rw [nextService] at hstep
    split at hstep
    · rename_i hstage
      cases hstep
      exact goTo_of_none h (operationGaps_of hstage rfl) nofun
    · cases hstep

theorem step_kept {event : ProcessEvent} (h : s.Kept) (hmeets : s.Meets event)
    (hstep : Step s event t) : t.Kept := by
  cases event with
  | task index event finished => exact nextTask_kept h hmeets hstep
  | cancelled index finished => exact nextCancelled_kept h hmeets hstep
  | raised index finished => exact nextRaised_kept h hmeets hstep
  | groupFailed group =>
    cases hstep
    exact failGroup_kept h group
  | instruments symbols finished => exact nextInstruments_kept h hmeets hstep
  | service event => exact nextService_kept h hmeets hstep

theorem booted_kept (leftover : List (Nat × GapReason)) : (booted leftover).Kept where
  owned _ hm :=
    mem_gaps.mpr (.inl (mem_serviceGaps.mpr (.inr (.inl (List.mem_toFinset.mp hm)))))
  settled _ hm := nomatch hm
  storage := nofun

/-- While no task ends with an open gap and no service variable with one is overwritten, every open
gap has a live owner. -/
theorem openGaps_owned {leftover : List (Nat × GapReason)} {events : List ProcessEvent}
    (hrun : Run (Guarded Meets Step) (booted leftover) events s) : s.NoOrphan :=
  have hkept : s.Kept := hrun.preserves (fun h hstep => step_kept h hstep.1 hstep.2)
    (booted_kept leftover)
  hkept.owned

/-! ### Runs -/

/-- A step that meets the condition. -/
def nextKept (s : CollectorProcess) (event : ProcessEvent) : Option CollectorProcess :=
  if s.Meets event then s.next event else none

theorem run_nextKept {events : List ProcessEvent} (h : events.foldlM nextKept s = some t) :
    Run (Guarded Meets Step) s events t := by
  refine run_of_foldlM (fun s event t hstep => ?_) h
  unfold nextKept at hstep
  split at hstep
  · rename_i hmeets
    exact ⟨hmeets, hstep⟩
  · cases hstep

/-- A public route with one symbol is started: the tasks 0 to 4 are `run`, `liveness_loop` and the
poll loops, the last one of the symbol, and 5 is the connection. -/
def startedRun : List ProcessEvent :=
  [.service (.bootChecked false ⟨[true], ["BTCUSDT"]⟩), .task 0 (.route .begun) [],
    .task 0 (.route .transportReady) [], .task 0 (.route .ready) [], .service .sourcesReady]

def breakRun : List ProcessEvent :=
  [.task 5 (.connection (.broken (.depth, "BTCUSDT"))) [], .task 5 (.connection .gapOpened) []]

def rotationRun : List ProcessEvent :=
  [.task 0 (.route .rotationDue) [], .task 0 (.route .replacementReady) [],
    .task 0 (.route .replaced) []]

def silenceRun : List ProcessEvent :=
  [.task 1 (.watch .awake) [], .task 1 (.watch (.found [(.depth, "BTCUSDT")])) [],
    .task 1 (.watch (.gapOpened true)) []]

def failedPollRun : List ProcessEvent :=
  [.task 4 (.poll .begun) [], .task 4 (.poll .failed) [], .task 4 (.poll .gapOpened) []]

/-- Two stale gaps, one of them of the storage, are closed; so are the gap of a break, before the
rotation, and of a poll. The gap of a silent stream is still open. -/
def keptRun : List ProcessEvent :=
  startedRun ++ [.service .staleDone, .service .staleDone, .service .staleFinished,
    .service .marked, .service (.storageChecked false ⟨[], []⟩), .service .storageClosed] ++
  breakRun ++ [.task 6 (.reanchor .bridged) [], .task 6 (.reanchor .gapClosed) []] ++
  failedPollRun ++ [.task 4 (.poll .begun) [], .task 4 (.poll .succeeded) [],
    .task 4 (.poll .gapClosed) []] ++ rotationRun ++ silenceRun

def keptStart : CollectorProcess := booted [(0, .connectionLost), (1, .storageExhausted)]

set_option maxRecDepth 20000 in
theorem openGaps_owned_rotation :
    ∃ s, Run (Guarded Meets Step) keptStart keptRun s ∧ s.openGaps = {4} ∧ s.NoOrphan := by
  have hopen : (keptRun.foldlM nextKept keptStart).map openGaps = some {4} := by decide
  obtain ⟨s, hs, hopen⟩ := Option.map_eq_some_iff.mp hopen
  exact ⟨s, run_nextKept hs, hopen, openGaps_owned (run_nextKept hs)⟩

theorem orphaned_of_foldlM {events : List ProcessEvent}
    (h : ((events.foldlM next s).any fun t => decide (¬ t.NoOrphan)) = true) :
    ∃ t, Run Step s events t ∧ ¬ t.NoOrphan := by
  obtain ⟨t, hrun, horphan⟩ := (Option.any_eq_true _ _).mp h
  exact ⟨t, run_of_foldlM (fun _ _ _ hstep => hstep) hrun, of_decide_eq_true horphan⟩

/-- The rotation cancels the re-anchor task with its connection, the stop of the sources ends
`liveness_loop`, and the poll loop of a removed symbol is cancelled, each with an open gap. -/
theorem openGaps_orphaned :
    (∃ s, Run Step (booted []) (startedRun ++ breakRun ++ rotationRun) s ∧ ¬ s.NoOrphan) ∧
    (∃ s, Run Step (booted []) (startedRun ++ [.service .staleFinished, .service .marked] ++
      silenceRun ++ [.service (.storageChecked true ⟨[], []⟩), .service .storageOpened,
        .task 1 (.watch .stopSeen) []]) s ∧ ¬ s.NoOrphan) ∧
    ∃ s, Run Step (booted []) (startedRun ++ failedPollRun ++ [.instruments ["ETHUSDT"] []]) s ∧
      ¬ s.NoOrphan :=
  ⟨orphaned_of_foldlM (by decide), orphaned_of_foldlM (by decide), orphaned_of_foldlM (by decide)⟩

end CollectorProcess

end MiryFormal
