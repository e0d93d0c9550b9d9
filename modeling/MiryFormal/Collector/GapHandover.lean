import MiryFormal.Collector.GapTasks

/-!
# What the tasks hand on

A step of a task leaves every gap in a variable of the task or of a task that it starts, unless the
step closes the gap or ends the task.
-/

namespace MiryFormal

set_option autoImplicit false

/-! ## What the tasks hold -/

/-- No gap is held while a connection is waited for, and none is overwritten. -/
def RouteTask.Settled (run : RouteTask) : Prop :=
  match run.stage with
  | .waiting _ | .replacing _ _ | .overlapping _ _ | .pausing _ =>
      run.gapId = none ∧ run.l2GapId = none
  | .starting _ true | .closingReanchor _ | .openingTransport _ => run.gapId = none
  | .openingReanchor _ => run.l2GapId = none
  | _ => True

/-- The gap of the transport is closed when a new one is there. -/
theorem RouteTask.next_transportClosed {run : RouteTask} {context : TaskContext} {move : TaskMove}
    (hnext : run.next context .transportClosed = some move) :
    ∃ connection gapId, run.stage = .closingTransport connection ∧ run.gapId = some gapId ∧
      move = { run with gapId := none }.goTo (.starting connection true) (.closed gapId) := by
  rw [RouteTask.next] at hnext
  split at hnext
  · rename_i connection gapId hstage hgap
    exact ⟨connection, gapId, hstage, hgap, (Option.some.inj hnext).symm⟩
  · cases hnext

/-- A gap is being opened only when there is none. -/
def PollTask.Settled (loop : PollTask) : Prop := loop.stage = .opening → loop.gap = none

namespace TaskBody

def Settled : TaskBody → Prop
  | .route run => run.Settled
  | .poll loop => loop.Settled
  | _ => True

/-- What the task still has in `openGaps` is in a call whose thread closes it, and no thread of it
opens a gap, when it ends where it awaits. -/
structure Released (body : TaskBody) (openGaps : Finset Nat) (finished : Prop) : Prop where
  opening : body.gapCall = some .opening → ¬ finished
  closed : ∀ gapId ∈ body.gaps, gapId ∈ openGaps → finished ∧ body.gapCall = some (.closing gapId)

instance (body : TaskBody) (openGaps : Finset Nat) (finished : Prop) [Decidable finished] :
    Decidable (body.Released openGaps finished) :=
  decidable_of_iff ((body.gapCall = some .opening → ¬ finished) ∧
    ∀ gapId ∈ body.gaps, gapId ∈ openGaps → finished ∧ body.gapCall = some (.closing gapId))
    ⟨fun h => ⟨h.1, h.2⟩, fun h => ⟨h.opening, h.closed⟩⟩

end TaskBody

/-- The events behind which `run` has returned. -/
def RouteTask.ends : RouteTaskEvent → Bool
  | .startCancelled | .stopSeen => true
  | _ => false

/-- The events behind which the loop has ended. -/
def WatchTask.ends : WatchTaskEvent → Bool
  | .gapOpened false | .stopSeen => true
  | _ => false

/-- The event behind which the loop has returned. -/
def PollTask.ends : PollTaskEvent → Bool
  | .stopSeen => true
  | _ => false

/-- The task ends by itself, other than by closing its gap. -/
def TaskEvent.ends : TaskEvent → Bool
  | .reanchor .failed => true
  | .route event => RouteTask.ends event
  | .watch event => WatchTask.ends event
  | .poll event => PollTask.ends event
  | _ => false

namespace TaskMove

/-- The task, unless it has ended, and those that it has started. -/
def bodies (move : TaskMove) : List TaskBody := move.after.toList ++ move.starts

/-- The gaps of the task are in the tasks behind the step. -/
structure Sound (move : TaskMove) (before : List Nat) : Prop where
  hands : move.change.Hands before (move.bodies.flatMap TaskBody.gaps)
  settled : ∀ body ∈ move.bodies, body.Settled

theorem Sound.of_after {move : TaskMove} {before : List Nat} {body : TaskBody}
    (hafter : move.after = some body) (hsettled : body.Settled)
    (hhands : move.change.Hands before body.gaps)
    (hstarts : ∀ start ∈ move.starts, start.Settled) : move.Sound before := by
  have hbodies : move.bodies = body :: move.starts := by
    rw [bodies, hafter]
    rfl
  constructor
  · rw [hbodies]
    exact hhands.mono fun _ hm => List.mem_append_left _ hm
  · rw [hbodies]
    exact List.forall_mem_cons.mpr ⟨hsettled, hstarts⟩

end TaskMove

/-! ## One step of a task -/

namespace RouteTask
variable {run : RouteTask} {context : TaskContext} {event : RouteTaskEvent} {move : TaskMove}

theorem mem_gaps {gapId : Nat} :
    gapId ∈ run.gaps ↔ run.gapId = some gapId ∨ run.l2GapId = some gapId := by
  rw [gaps, List.mem_append, Option.mem_toList, Option.mem_toList]

/-- Waiting elsewhere keeps the gaps. -/
theorem goTo_sound {stage : RouteStage} (hnext : some (run.goTo stage) = some move)
    (hafter : ({ run with stage }).Settled) : move.Sound run.gaps := by
  cases hnext
  exact .of_after rfl hafter (.keep fun _ hm => hm) nofun

theorem connect_sound {stage : RouteStage}
    (hnext : some (run.goTo stage .keep [.connection none]) = some move)
    (hafter : ({ run with stage }).Settled) : move.Sound run.gaps := by
  cases hnext
  refine .of_after rfl hafter (.keep fun _ hm => hm) fun start hm => ?_
  cases List.mem_singleton.mp hm
  trivial

theorem transportClosed_sound (hnext : run.next context .transportClosed = some move) :
    move.Sound run.gaps := by
  obtain ⟨connection, gapId, hstage, hgap, rfl⟩ := next_transportClosed hnext
  refine .of_after rfl rfl (.closed fun other hm => ?_) nofun
  rcases mem_gaps.mp hm with hm | hm
  · exact .inr (Option.some.inj (hm.symm.trans hgap))
  · exact .inl (mem_gaps.mpr (.inr hm))

theorem reanchorClosed_sound (hsettled : run.Settled)
    (hnext : run.next context .reanchorClosed = some move) : move.Sound run.gaps := by
  rw [next] at hnext
  split at hnext
  · rename_i gapId hstage hgap
    rw [Settled, hstage] at hsettled
    cases hnext
    refine .of_after rfl ⟨hsettled, rfl⟩ (.closed fun other hm => ?_) nofun
    rcases mem_gaps.mp hm with hm | hm
    · exact .inl (mem_gaps.mpr (.inl hm))
    · exact .inr (Option.some.inj (hm.symm.trans hgap))
  · cases hnext

theorem transportOpened_sound (hsettled : run.Settled)
    (hnext : run.next context .transportOpened = some move) : move.Sound run.gaps := by
  rw [next] at hnext
  split at hnext
  · rename_i hstage
    rw [Settled, hstage] at hsettled
    cases hnext
    refine .of_after rfl ?_ (.opened (fun other hm => ?_) (mem_gaps.mpr (.inl rfl))) nofun
    · split
      · rename_i hl2
        exact hl2.1
      · trivial
    · rcases mem_gaps.mp hm with hm | hm
      · rw [hsettled] at hm
        cases hm
      · exact mem_gaps.mpr (.inr hm)
  · cases hnext

theorem reanchorOpened_sound (hsettled : run.Settled)
    (hnext : run.next context .reanchorOpened = some move) : move.Sound run.gaps := by
  rw [next] at hnext
  split at hnext
  · rename_i hstage
    rw [Settled, hstage] at hsettled
    cases hnext
    refine .of_after rfl trivial (.opened (fun other hm => ?_) (mem_gaps.mpr (.inr rfl))) nofun
    rcases mem_gaps.mp hm with hm | hm
    · exact mem_gaps.mpr (.inl hm)
    · rw [hsettled] at hm
      cases hm
  · cases hnext

/-- A step that returns to an await keeps its gaps, or opens or closes one of them. -/
theorem next_sound (hsettled : run.Settled) (hnext : run.next context event = some move)
    (hends : ends event = false) : move.Sound run.gaps := by
  cases event with
  | startCancelled | stopSeen => cases hends
  | transportClosed => exact transportClosed_sound hnext
  | reanchorClosed => exact reanchorClosed_sound hsettled hnext
  | transportOpened => exact transportOpened_sound hsettled hnext
  | reanchorOpened => exact reanchorOpened_sound hsettled hnext
  | begun =>
    rw [next] at hnext
    split at hnext
    · split at hnext
      · cases hnext
      · exact connect_sound hnext trivial
    · cases hnext
  | transportReady =>
    rw [next] at hnext
    split at hnext
    · split at hnext
      · refine goTo_sound hnext ?_
        split
        · assumption
        · trivial
      · cases hnext
    · cases hnext
  | ready =>
    rw [next] at hnext
    split at hnext
    · rename_i hstage
      rw [Settled, hstage] at hsettled
      refine goTo_sound hnext ?_
      split
      · rename_i hl2
        exact ⟨hsettled, hl2⟩
      · exact hsettled
    · cases hnext
  | startFailed =>
    rw [next] at hnext
    split at hnext
    · refine goTo_sound hnext ?_
      split
      · assumption
      · trivial
    · cases hnext
  | connectionFailed =>
    rw [next] at hnext
    split at hnext
    · rename_i hstage
      rw [Settled, hstage] at hsettled
      split at hnext
      · cases hnext
      · exact goTo_sound hnext hsettled.1
    · cases hnext
  | reconnectRequested =>
    rw [next] at hnext
    split at hnext
    · rename_i hstage
      rw [Settled, hstage] at hsettled
      exact goTo_sound hnext hsettled.1
    · cases hnext
  | resumed =>
    rw [next] at hnext
    split at hnext
    · rename_i hstage
      rw [Settled, hstage] at hsettled
      split at hnext
      · cases hnext
      · exact goTo_sound hnext hsettled
    · cases hnext
  | rotationDue =>
    rw [next] at hnext
    split at hnext
    · rename_i hstage
      rw [Settled, hstage] at hsettled
      exact connect_sound hnext hsettled
    · cases hnext
  | replacementReady | replaced | replacementFailed =>
    rw [next] at hnext
    split at hnext
    · rename_i hstage
      rw [Settled, hstage] at hsettled
      exact goTo_sound hnext hsettled
    · cases hnext

end RouteTask

namespace WatchTask
variable {loop : WatchTask} {context : TaskContext} {event : WatchTaskEvent} {move : TaskMove}

@[simp] theorem openNext_gaps (stale rest : List LivenessKey) :
    (loop.openNext stale rest).gaps = loop.gaps := by
  unfold openNext
  split <;> rfl

@[simp] theorem closeNext_gaps (rest : List LivenessKey) :
    (loop.closeNext rest).gaps = loop.gaps := by
  unfold closeNext
  split <;> rfl

/-- `del active_gaps[key]` takes only the gap of the key away. -/
theorem removeActive_gaps {key : LivenessKey} {gapId : Nat}
    (hactive : loop.activeGap key = some gapId) {other : Nat} (hm : other ∈ loop.gaps) :
    other ∈ (loop.removeActive key).gaps ∨ other = gapId := by
  obtain ⟨active, hfind, hgap⟩ := Option.map_eq_some_iff.mp hactive
  obtain ⟨pair, hpair, rfl⟩ := List.mem_map.mp hm
  by_cases heq : pair = active
  · rw [heq]
    exact .inr hgap
  · refine .inl (List.mem_map_of_mem ?_)
    obtain ⟨hkey, before, rest, hsplit, hbefore⟩ := List.find?_eq_some_iff_append.mp hfind
    have hnone : ∀ p ∈ before, ¬ decide (p.1 = key) = true := fun p hp => by
      simpa using hbefore p hp
    have herase : (loop.removeActive key).activeGaps = before ++ rest := by
      show loop.activeGaps.eraseP (fun pair => decide (pair.1 = key)) = before ++ rest
      rw [hsplit, List.eraseP_append_right _ hnone, List.eraseP_cons, decide_eq_true_eq.mp hkey]
      simp
    rw [hsplit] at hpair
    rw [herase]
    rcases List.mem_append.mp hpair with hm | hm
    · exact List.mem_append_left _ hm
    · exact List.mem_append_right _ ((List.mem_cons.mp hm).resolve_left heq)

theorem next_sound (hnext : loop.next context event = some move) (hends : ends event = false) :
    move.Sound loop.gaps := by
  cases event with
  | stopSeen => cases hends
  | awake =>
    rw [next] at hnext
    split at hnext
    · split at hnext
      · cases hnext
      · cases hnext
        exact .of_after rfl trivial (.keep fun _ hm => hm) nofun
    · cases hnext
  | left | recovered | refreshFailed =>
    rw [next] at hnext
    split at hnext
    · cases hnext
      exact .of_after rfl trivial (.keep fun _ hm => hm) nofun
    · cases hnext
  | gapClosed =>
    rw [next] at hnext
    split at hnext
    · obtain ⟨gapId, hactive, rfl⟩ := Option.map_eq_some_iff.mp hnext
      exact .of_after rfl trivial (.closed fun other hm => removeActive_gaps hactive hm) nofun
    · obtain ⟨gapId, hactive, rfl⟩ := Option.map_eq_some_iff.mp hnext
      refine .of_after rfl trivial (.closed fun other hm => ?_) nofun
      rw [TaskBody.gaps, closeNext_gaps]
      exact removeActive_gaps hactive hm
    · cases hnext
  | found stale =>
    rw [next] at hnext
    split at hnext
    · cases hnext
      refine .of_after rfl trivial (.keep fun other hm => ?_) nofun
      split
      · exact hm
      · rw [TaskBody.gaps, openNext_gaps]
        exact hm
    · cases hnext
  | gapOpened present =>
    cases present with
    | false => cases hends
    | true =>
      rw [next] at hnext
      split at hnext
      · rename_i key rest hstage
        cases hnext
        have hgaps : ({ loop with
            activeGaps := loop.activeGaps ++ [(key, context.nextGap)] } : WatchTask).gaps =
              loop.gaps ++ [context.nextGap] := List.map_append
        refine .of_after rfl trivial (.opened (fun other hm => ?_) ?_) nofun
        · rw [TaskBody.gaps, openNext_gaps, hgaps]
          exact List.mem_append_left _ hm
        · rw [TaskBody.gaps, openNext_gaps, hgaps]
          exact List.mem_append_right _ (List.mem_singleton_self _)
      · cases hnext
  | refreshed =>
    rw [next] at hnext
    split at hnext
    · cases hnext
      refine .of_after rfl trivial (.keep fun other hm => ?_) nofun
      rw [TaskBody.gaps, closeNext_gaps]
      exact hm
    · cases hnext

end WatchTask

namespace PollTask
variable {loop : PollTask} {context : TaskContext} {event : PollTaskEvent} {move : TaskMove}

theorem next_sound (hsettled : loop.Settled) (hnext : loop.next context event = some move)
    (hends : ends event = false) : move.Sound loop.gap.toList := by
  cases event with
  | stopSeen => cases hends
  | begun =>
    rw [next] at hnext
    split at hnext
    · split at hnext
      · cases hnext
      · cases hnext
        exact .of_after rfl nofun (.keep fun _ hm => hm) nofun
    · cases hnext
  | succeeded =>
    rw [next] at hnext
    split at hnext
    · cases hnext
      refine .of_after rfl ?_ (.keep fun _ hm => hm) nofun
      show (if _ then _ else _) = PollStage.opening → _
      split <;> exact nofun
    · cases hnext
  | failed =>
    rw [next] at hnext
    split at hnext
    · cases hnext
      refine .of_after rfl ?_ (.keep fun _ hm => hm) nofun
      show (if _ then _ else _) = PollStage.opening → _
      split
      · exact fun _ => by assumption
      · exact nofun
    · cases hnext
  | gapOpened =>
    rw [next] at hnext
    split at hnext
    · rename_i hstage
      cases hnext
      refine .of_after rfl nofun (.opened (fun other hm => ?_) (List.mem_singleton_self _)) nofun
      rw [hsettled hstage] at hm
      cases hm
    · cases hnext
  | gapClosed =>
    rw [next] at hnext
    split at hnext
    · rename_i gapId hstage hgap
      cases hnext
      refine .of_after rfl nofun (.closed fun other hm => .inr ?_) nofun
      rw [hgap] at hm
      exact List.mem_singleton.mp hm
    · cases hnext

end PollTask

namespace TaskBody
variable {body : TaskBody} {context : TaskContext} {event : TaskEvent} {move : TaskMove}

theorem next_sound (hsettled : body.Settled) (hnext : body.next context event = some move)
    (hends : event.ends = false) : move.Sound body.gaps := by
  cases body with
  | connection opening =>
    cases event with
    | connection event =>
      cases event with
      | broken key =>
        rw [next, nextConnection] at hnext
        split at hnext
        · cases hnext
          exact .of_after rfl trivial (.keep nofun) nofun
        · cases hnext
      | gapOpened =>
        rw [next, nextConnection] at hnext
        obtain ⟨key, -, rfl⟩ := Option.map_eq_some_iff.mp hnext
        constructor
        · exact .opened nofun (List.mem_singleton_self _)
        · intro start hm
          rcases List.mem_pair.mp hm with rfl | rfl <;> trivial
      | lost =>
        cases hnext
        exact ⟨.keep nofun, nofun⟩
    | _ => cases hnext
  | reanchor task =>
    cases event with
    | reanchor event =>
      cases event with
      | bridged =>
        rw [next, ReanchorTask.next] at hnext
        split at hnext
        · cases hnext
        · cases hnext
          exact .of_after rfl trivial (.keep fun _ hm => hm) nofun
      | gapClosed =>
        rw [next, ReanchorTask.next] at hnext
        split at hnext
        · cases hnext
          exact ⟨.closed fun other hm => .inr (List.mem_singleton.mp hm), nofun⟩
        · cases hnext
      | failed => cases hends
    | _ => cases hnext
  | route run =>
    cases event with
    | route event => exact RouteTask.next_sound hsettled hnext hends
    | _ => cases hnext
  | watch loop =>
    cases event with
    | watch event => exact WatchTask.next_sound hnext hends
    | _ => cases hnext
  | poll loop =>
    cases event with
    | poll event => exact PollTask.next_sound hsettled hnext hends
    | _ => cases hnext

/-- A task that ends leaves nothing behind, unless its gap has just been opened. -/
theorem next_ends (hnext : body.next context event = some move) (hends : event.ends = true)
    (hpresent : event ≠ .watch (.gapOpened false)) : move = { after := none } := by
  cases body with
  | connection opening => cases event with
    | connection event => cases hends
    | _ => cases hnext
  | reanchor task =>
    cases event with
    | reanchor event =>
      cases event with
      | bridged | gapClosed => cases hends
      | failed =>
        rw [next, ReanchorTask.next] at hnext
        split at hnext
        · cases hnext
        · exact (Option.some.inj hnext).symm
    | _ => cases hnext
  | route run =>
    cases event with
    | route event =>
      cases event with
      | startCancelled =>
        rw [next, RouteTask.next] at hnext
        split at hnext
        · exact (Option.some.inj hnext).symm
        · exact (Option.some.inj hnext).symm
        · cases hnext
      | stopSeen =>
        have hstop : (if context.stop then some ({ after := none } : TaskMove) else none) =
            some move := by
          rw [next, RouteTask.next] at hnext
          split at hnext
          all_goals first | exact hnext | cases hnext
        split at hstop
        · exact (Option.some.inj hstop).symm
        · cases hstop
      | _ => cases hends
    | _ => cases hnext
  | watch loop =>
    cases event with
    | watch event =>
      cases event with
      | stopSeen =>
        have hstop : (if context.stop then some ({ after := none } : TaskMove) else none) =
            some move := by
          rw [next, WatchTask.next] at hnext
          split at hnext
          all_goals first | exact hnext | cases hnext
        split at hstop
        · exact (Option.some.inj hstop).symm
        · cases hstop
      | gapOpened present =>
        cases present with
        | false => exact absurd rfl hpresent
        | true => cases hends
      | _ => cases hends
    | _ => cases hnext
  | poll loop =>
    cases event with
    | poll event =>
      cases event with
      | stopSeen =>
        rw [next, PollTask.next] at hnext
        split at hnext
        · split at hnext
          · exact (Option.some.inj hnext).symm
          · cases hnext
        · cases hnext
      | _ => cases hends
    | _ => cases hnext

/-- What is left open is not in a variable of the task. -/
theorem Released.left {openGaps : Finset Nat} {finished : Prop} [Decidable finished]
    (h : body.Released openGaps finished) {nextGap gapId : Nat}
    (hm : gapId ∈ (if finished then (body.finishCall nextGap).apply openGaps else openGaps)) :
    gapId ∈ openGaps ∧ gapId ∉ body.gaps := by
  split at hm
  · rename_i hfinished
    cases hcall : body.gapCall with
    | none =>
      rw [finishCall, hcall] at hm
      refine ⟨hm, fun hgap => ?_⟩
      have hclosing := (h.closed gapId hgap hm).2
      rw [hcall] at hclosing
      cases hclosing
    | some call =>
      cases call with
      | opening => exact absurd hfinished (h.opening hcall)
      | closing old =>
        rw [finishCall, hcall] at hm
        obtain ⟨hne, hm⟩ := Finset.mem_erase.mp hm
        refine ⟨hm, fun hgap => hne ?_⟩
        have hclosing := (h.closed gapId hgap hm).2
        rw [hcall] at hclosing
        cases hclosing
        rfl
  · rename_i hfinished
    exact ⟨hm, fun hgap => hfinished (h.closed gapId hgap hm).1⟩

end TaskBody

end MiryFormal
