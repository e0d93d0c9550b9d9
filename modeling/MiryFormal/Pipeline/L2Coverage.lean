import MiryFormal.Pipeline.L2Validity
import MiryFormal.Shared.Runs

/-!
# Valid time that no interval covers

An instant is due when no gap is open and the connection that became valid last is still
valid. Every due instant is covered by an interval exactly when no CLOSED event restarts an
interval that is already running.
-/

namespace MiryFormal

set_option autoImplicit false

namespace L2Day

/-- The connection of the last change to VALID, or else that of the checkpoint. -/
def lastBecameValid (day : L2Day) (replay : DayReplay) : Option String :=
  ((replay.changes.filter fun change => change.state = .valid).getLast?.map
    StateChange.connectionId).or (day.previousCheckpoint.bind L2Checkpoint.connectionId)

/-- At `t` no gap is open, and the connection that most recently became valid still is. -/
def Due (day : L2Day) (t : Int) : Prop :=
  ∃ replay c, day.replayAt t = .ok replay ∧ day.gapsOpenAt t = [] ∧
    day.lastBecameValid replay = some c ∧ replay.ValidBook c

/-- Every due instant of the day lies in an interval of the output. -/
def NoTimeLost (day : L2Day) (out : L2DayOutput) : Prop :=
  ∀ t, day.startNs ≤ t → t < day.endNs → day.Due t →
    ∃ interval ∈ out.intervals, interval.validFromNs ≤ t ∧ t < interval.validToNs

/-- A CLOSED event that leaves no gap open finds no interval running that began before it. -/
def ClosesIdle (replay : DayReplay) : DayItem → Prop
  | .gap event => event.state = .closed → replay.remainingGaps event = [] →
      ∀ fromNs ∈ replay.validFrom, replay.authority ≠ none → fromNs = event.observedAtRealtimeNs
  | .row _ => True

instance (replay : DayReplay) : ∀ item, Decidable (ClosesIdle replay item)
  | .gap _ => inferInstanceAs (Decidable (_ → _ → ∀ _ ∈ _, _ → _))
  | .row _ => inferInstanceAs (Decidable True)

end L2Day

namespace DayReplay

/-- The due instants of a history, with the connection that is due. -/
def DueAt (day : L2Day) (hist : Int → Except String DayReplay) (t : Int) (c : String) : Prop :=
  ∃ replay, hist t = .ok replay ∧ replay.activeGaps = [] ∧
    day.lastBecameValid replay = some c ∧ replay.ValidBook c

/-- What `last_valid_connection` and the authority say about the last valid connection. -/
structure Tracked (day : L2Day) (replay : DayReplay) : Prop where
  last_eq : ∀ c, replay.lastValidConnection = some c → day.lastBecameValid replay = some c
  last_valid : ∀ c, day.lastBecameValid replay = some c → replay.ValidBook c →
    replay.lastValidConnection = some c
  authority : ∀ c, replay.activeGaps = [] → replay.lastValidConnection = some c →
    replay.ValidBook c → replay.authority = some c

variable {day : L2Day} {hist : Int → Except String DayReplay} {startNs now : Int}
  {replay replay' : DayReplay} {item : DayItem}

theorem lastBecameValid_valid {change : StateChange}
    (hchanges : replay'.changes = replay.changes ++ [change]) (h : change.state = .valid) :
    day.lastBecameValid replay' = some change.connectionId := by
  simp [L2Day.lastBecameValid, hchanges, List.filter_append, h]

theorem lastBecameValid_other {change : StateChange}
    (hchanges : replay'.changes = replay.changes ++ [change]) (h : change.state ≠ .valid) :
    day.lastBecameValid replay' = day.lastBecameValid replay := by
  simp [L2Day.lastBecameValid, hchanges, List.filter_append, h]

theorem Tracked.handled (h : Tracked day replay) (hsound : Sound hist startNs now replay)
    (hstep : Handled now replay item replay') : Tracked day replay' := by
  cases hstep with
  | opened event hstate =>
    exact ⟨by simp [openedAt, invalidateBooks], fun c _ hv => absurd hv not_validBook_openedAt,
      fun c _ _ hv => absurd hv not_validBook_openedAt⟩
  | closed event hstate hno =>
    exact ⟨h.last_eq, h.last_valid, fun c hnil hlast hv => absurd hv (hno hnil c hlast)⟩
  | resumed event c hstate hnil hlast hvalid hnow =>
    exact ⟨h.last_eq, h.last_valid, fun c' _ hlast' _ => hlast.symm.trans hlast'⟩
  | quiet row book hbooks hbook =>
    exact ⟨h.last_eq, fun c hc hv => h.last_valid c hc ((hbook c).mp hv),
      fun c hnil hlast hv => h.authority c hnil hlast ((hbook c).mp hv)⟩
  | bridgedInGap row book change hbooks hbook hchange hname hgaps =>
    refine ⟨fun c hlast => ?_, fun c hc _ => ?_, fun c hnil => absurd hnil hgaps⟩
    · exact (lastBecameValid_valid rfl hchange).trans (hname ▸ hlast)
    · exact hname ▸ (lastBecameValid_valid rfl hchange).symm.trans hc
  | bridged row book change hbooks hbook hchange hname hgaps =>
    refine ⟨fun c hlast => ?_, fun c hc _ => ?_, fun c _ hlast _ => hlast⟩
    · exact (lastBecameValid_valid rfl hchange).trans (hname ▸ hlast)
    · exact hname ▸ (lastBecameValid_valid rfl hchange).symm.trans hc
  | ended row book change hbooks hbook hchange ha =>
    refine ⟨by simp, fun c hc hv => ?_, by simp⟩
    have hc := (lastBecameValid_other rfl hchange).symm.trans hc
    obtain ⟨hne, hv⟩ := (hbook c).mp hv
    obtain ⟨fromNs, hf⟩ : ∃ fromNs, replay.validFrom = some fromNs := by
      refine Option.ne_none_iff_exists'.mp fun hf => ?_
      simp [hsound.authority_iff.mpr hf] at ha
    have hlast := (hsound.running _ fromNs ha hf).last
    exact absurd (Option.some.inj (hlast.symm.trans (h.last_valid c hc hv))) hne
  | broken row book change hbooks hbook hchange hother =>
    refine ⟨fun c hlast => ?_, fun c hc hv => ?_, fun c hnil hlast hv => ?_⟩
    · exact (lastBecameValid_other rfl hchange).trans (h.last_eq c hlast)
    · exact h.last_valid c ((lastBecameValid_other rfl hchange).symm.trans hc) ((hbook c).mp hv).2
    · exact h.authority c hnil hlast ((hbook c).mp hv).2

/-- The invariant of every run: the running interval covers due instants only. -/
structure Following (day : L2Day) (hist : Int → Except String DayReplay) (startNs now : Int)
    (replay : DayReplay) : Prop where
  sound : Sound hist startNs now replay
  tracked : Tracked day replay
  due : ∀ c fromNs, replay.authority = some c → replay.validFrom = some fromNs →
    ∀ t, fromNs ≤ t → t < now → DueAt day hist t c

theorem Following.wait {later : Int} (h : Following day hist startNs now replay)
    (hle : now ≤ later) (hstill : ∀ t, now ≤ t → t < later → hist t = .ok replay) :
    Following day hist startNs later replay where
  sound := h.sound.wait hle hstill
  tracked := h.tracked
  due := fun c fromNs ha hf t hfrom ht => by
    rcases lt_or_ge t now with hlt | hge
    · exact h.due c fromNs ha hf t hfrom hlt
    · have hrun := h.sound.running c fromNs ha hf
      exact ⟨replay, hstill t hge ht, hrun.no_gap, h.tracked.last_eq c hrun.last, hrun.valid⟩

theorem Following.handled (h : Following day hist startNs now replay) (hstart : startNs ≤ now)
    (hstep : Handled now replay item replay') : Following day hist startNs now replay' := by
  refine ⟨h.sound.handled hstart hstep, h.tracked.handled h.sound hstep, ?_⟩
  intro c fromNs ha hf t hfrom ht
  cases hstep with
  | opened event hstate => simp [openedAt, invalidateBooks] at ha
  | closed event hstate hno => exact h.due c fromNs ha hf t hfrom ht
  | resumed event c' hstate hnil hlast hvalid hnow =>
    obtain rfl : now = fromNs := Option.some.inj hf
    omega
  | quiet row book hbooks hbook => exact h.due c fromNs ha hf t hfrom ht
  | bridgedInGap row book change hbooks hbook hchange hname hgaps =>
    exact h.due c fromNs ha hf t hfrom ht
  | bridged row book change hbooks hbook hchange hname hgaps =>
    obtain rfl : now = fromNs := Option.some.inj hf
    omega
  | ended row book change hbooks hbook hchange ha' => simp at ha
  | broken row book change hbooks hbook hchange hother => exact h.due c fromNs ha hf t hfrom ht

/-! ## No time is lost -/

/-- `t` lies in an emitted interval or in the running one. -/
def CoveredBy (replay : DayReplay) (t : Int) : Prop :=
  (∃ interval ∈ replay.intervals, interval.validFromNs ≤ t ∧ t < interval.validToNs) ∨
    ∃ fromNs, replay.validFrom = some fromNs ∧ fromNs ≤ t

/-- Ending the running interval now keeps what was covered before. -/
theorem CoveredBy.ended {t : Int} (h : CoveredBy replay t) (ht : t < now) (reason : String)
    (hiff : replay.authority = none ↔ replay.validFrom = none) :
    ∃ interval ∈ replay.endInterval now reason,
      interval.validFromNs ≤ t ∧ t < interval.validToNs := by
  rcases authority_cases hiff with ⟨ha, hnone⟩ | ⟨c, fromNs, ha, hf⟩
  · rw [endInterval_none ha]
    rcases h with h | ⟨fromNs, hf, -⟩
    · exact h
    · simp [hnone] at hf
  · rw [endInterval_some ha hf]
    rcases h with ⟨interval, hm, hcover⟩ | ⟨fromNs', hf', hle⟩
    · exact ⟨interval, List.mem_append_left _ hm, hcover⟩
    · obtain rfl : fromNs = fromNs' := Option.some.inj (hf.symm.trans hf')
      exact ⟨_, List.mem_append_right _ List.mem_cons_self, hle, ht⟩

theorem CoveredBy.handled {t : Int} (h : CoveredBy replay t) (ht : t < now)
    (hsound : Sound hist startNs now replay) (hidle : L2Day.ClosesIdle replay item)
    (hstep : Handled now replay item replay') : CoveredBy replay' t := by
  cases hstep with
  | opened event hstate => exact .inl (h.ended ht "transport_gap" hsound.authority_iff)
  | closed event hstate hno => exact h
  | resumed event c hstate hnil hlast hvalid hnow =>
    rcases h with h | ⟨fromNs, hf, hle⟩
    · exact .inl h
    · refine absurd hle (not_le.mpr ?_)
      rw [hidle hstate hnil fromNs hf fun ha => by simp [hsound.authority_iff.mp ha] at hf, hnow]
      exact ht
  | quiet row book hbooks hbook => exact h
  | bridgedInGap row book change hbooks hbook hchange hname hgaps => exact h
  | bridged row book change hbooks hbook hchange hname hgaps =>
    exact .inl (h.ended ht "connection_switch" hsound.authority_iff)
  | ended row book change hbooks hbook hchange ha =>
    exact .inl (h.ended ht change.reason hsound.authority_iff)
  | broken row book change hbooks hbook hchange hother => exact h

/-- The invariant of a run whose CLOSED events are idle: all that was due is covered. -/
structure Covering (day : L2Day) (hist : Int → Except String DayReplay) (startNs now : Int)
    (replay : DayReplay) : Prop where
  following : Following day hist startNs now replay
  covered : ∀ t c, startNs ≤ t → t < now → DueAt day hist t c → CoveredBy replay t

theorem Covering.wait {later : Int} (h : Covering day hist startNs now replay)
    (hle : now ≤ later) (hstill : ∀ t, now ≤ t → t < later → hist t = .ok replay) :
    Covering day hist startNs later replay := by
  refine ⟨h.following.wait hle hstill, fun t c hstart ht hdue => ?_⟩
  rcases lt_or_ge t now with hlt | hge
  · exact h.covered t c hstart hlt hdue
  · -- Nothing happens at `t`, so the running interval covers it.
    obtain ⟨replay', hreplay, hnil, hlast, hvalid⟩ := hdue
    obtain rfl : replay = replay' := Except.ok.inj ((hstill t hge ht).symm.trans hreplay)
    have htracked := h.following.tracked
    have hsound := h.following.sound
    have ha := htracked.authority c hnil (htracked.last_valid c hlast hvalid) hvalid
    obtain ⟨fromNs, hf⟩ : ∃ fromNs, replay.validFrom = some fromNs := by
      refine Option.ne_none_iff_exists'.mp fun hf => ?_
      simp [hsound.authority_iff.mpr hf] at ha
    exact .inr ⟨fromNs, hf, ((hsound.running c fromNs ha hf).le_now).trans hge⟩

theorem Covering.handled (h : Covering day hist startNs now replay) (hstart : startNs ≤ now)
    (hidle : L2Day.ClosesIdle replay item) (hstep : Handled now replay item replay') :
    Covering day hist startNs now replay' :=
  ⟨h.following.handled hstart hstep, fun t c hle hlt hdue =>
    (h.covered t c hle hlt hdue).handled hlt h.following.sound hidle hstep⟩

/-! ## Time that is lost stays lost -/

/-- `t` is over and in no interval, emitted or running. -/
structure Lost (t now : Int) (replay : DayReplay) : Prop where
  before : t < now
  not_covered : ∀ interval ∈ replay.intervals,
    ¬ (interval.validFromNs ≤ t ∧ t < interval.validToNs)
  not_running : ∀ fromNs ∈ replay.validFrom, t < fromNs

theorem Lost.ended {t toNs : Int} (h : Lost t now replay) (reason : String) :
    ∀ interval ∈ replay.endInterval toNs reason,
      ¬ (interval.validFromNs ≤ t ∧ t < interval.validToNs) := by
  intro interval hm
  unfold endInterval at hm
  split at hm
  · rename_i c fromNs _ hf
    rcases List.mem_append.mp hm with hm | hm
    · exact h.not_covered interval hm
    · rw [List.mem_singleton.mp hm]
      have := h.not_running fromNs hf
      simp only [not_and_or]
      omega
  · exact h.not_covered interval hm

theorem Lost.handled {t : Int} (h : Lost t now replay)
    (hstep : Handled now replay item replay') : Lost t now replay' := by
  have hnow : ∀ fromNs ∈ some now, t < fromNs := by simpa using h.before
  cases hstep with
  | opened event hstate => exact ⟨h.before, h.ended "transport_gap", by simp [openedAt, invalidateBooks]⟩
  | closed event hstate hno => exact ⟨h.before, h.not_covered, h.not_running⟩
  | resumed event c hstate hnil hlast hvalid _ => exact ⟨h.before, h.not_covered, hnow⟩
  | quiet row book hbooks hbook => exact ⟨h.before, h.not_covered, h.not_running⟩
  | bridgedInGap row book change hbooks hbook hchange hname hgaps =>
    exact ⟨h.before, h.not_covered, h.not_running⟩
  | bridged row book change hbooks hbook hchange hname hgaps =>
    exact ⟨h.before, h.ended "connection_switch", hnow⟩
  | ended row book change hbooks hbook hchange ha =>
    exact ⟨h.before, h.ended change.reason, by simp⟩
  | broken row book change hbooks hbook hchange hother =>
    exact ⟨h.before, h.not_covered, h.not_running⟩

/-- A CLOSED event that restarts a running interval loses its beginning, which was due. -/
theorem Following.lost (h : Following day hist startNs now replay)
    (hbusy : ¬ L2Day.ClosesIdle replay item) (hstep : Handled now replay item replay') :
    ∃ t c, startNs ≤ t ∧ DueAt day hist t c ∧ Lost t now replay' := by
  cases hstep with
  | closed event hstate hno =>
    simp only [L2Day.ClosesIdle, not_forall] at hbusy
    obtain ⟨-, hnil, fromNs, hf, ha, -⟩ := hbusy
    obtain ⟨c, ha⟩ := Option.ne_none_iff_exists'.mp ha
    have hrun := h.sound.running c fromNs ha hf
    exact absurd hrun.valid (hno hnil c hrun.last)
  | resumed event c hstate hnil hlast hvalid hnow =>
    simp only [L2Day.ClosesIdle, not_forall] at hbusy
    obtain ⟨-, -, fromNs, hf, ha, hne⟩ := hbusy
    obtain ⟨c', ha⟩ := Option.ne_none_iff_exists'.mp ha
    have hrun := h.sound.running c' fromNs ha hf
    have hlt : fromNs < now := by
      have := hrun.le_now
      omega
    refine ⟨fromNs, c', hrun.start_le, h.due c' fromNs ha hf fromNs le_rfl hlt, hlt, ?_, ?_⟩
    · intro interval hm
      have := hrun.after interval hm
      simp only [not_and_or]
      omega
    · simpa using hlt
  | _ => simp [L2Day.ClosesIdle, *] at hbusy

end DayReplay

namespace L2Day
variable {day : L2Day} {start : DayReplay} {out : L2DayOutput}

/-- The history of a day from its first variables. -/
def history (day : L2Day) (start : DayReplay) (t : Int) : Except String DayReplay :=
  stateAt DayItem.timeNs DayReplay.handle start day.items t

theorem due_iff (hin : day.InDay) (hstart : day.begin = .ok start) {t : Int} :
    day.Due t ↔ ∃ c, DayReplay.DueAt day (day.history start) t c := by
  constructor
  · rintro ⟨replay, c, hreplay, hgaps, hlast, hvalid⟩
    have hhist : day.history start t = .ok replay := (replayAt_eq hstart t).symm.trans hreplay
    exact ⟨c, replay, hhist, (activeGaps_stateAt hin hstart hhist).trans hgaps, hlast, hvalid⟩
  · rintro ⟨c, replay, hhist, hgaps, hlast, hvalid⟩
    exact ⟨replay, c, (replayAt_eq hstart t).trans hhist,
      (activeGaps_stateAt hin hstart hhist).symm.trans hgaps, hlast, hvalid⟩

theorem tracked_restore (h : day.restore day.previousCheckpoint = .ok start) :
    DayReplay.Tracked day start := by
  have hlast : start.lastValidConnection =
      day.previousCheckpoint.bind L2Checkpoint.connectionId ∧
      start.authority = start.lastValidConnection := by
    cases hcheckpoint : day.previousCheckpoint with
    | none =>
      rw [hcheckpoint] at h
      cases h
      exact ⟨rfl, rfl⟩
    | some checkpoint =>
      rw [hcheckpoint, restore] at h
      split at h
      · rename_i hvalid
        obtain ⟨c, hc⟩ := Option.ne_none_iff_exists'.mp (checkpoint.complete hvalid).1
        simp only [ConnectionBook.fromCheckpoint, hvalid, hc, bind, Except.bind] at h
        split at h <;> cases h
        simp [hc]
      · rename_i hvalid
        simp only [bind, Except.bind] at h
        split at h <;> cases h
        simp [(checkpoint.empty hvalid).1]
  have hbecame : day.lastBecameValid start = start.lastValidConnection := by
    simp [lastBecameValid, (restore_fresh h).2.2, hlast.1]
  exact ⟨fun c hc => hbecame.trans hc, fun c hc _ => hbecame.symm.trans hc,
    fun c _ hc _ => hlast.2.trans hc⟩

theorem following_begin (hsettled : ∀ checkpoint ∈ day.previousCheckpoint,
    checkpoint.Settled day.startNs) (hstart : day.begin = .ok start) :
    DayReplay.Following day (day.history start) day.startNs day.startNs start where
  sound := sound_restore hsettled (begin_ok hstart)
  tracked := tracked_restore (begin_ok hstart)
  due := fun c fromNs ha hf t hfrom ht => by
    have hsound : DayReplay.Sound (day.history start) day.startNs day.startNs start :=
      sound_restore hsettled (begin_ok hstart)
    have := (hsound.running c fromNs ha hf).start_le
    omega

theorem following_step (hin : day.InDay) {done rest : List DayItem} {item : DayItem}
    {replay : DayReplay} (hitems : day.items = done ++ item :: rest)
    (h : DayReplay.Following day (day.history start) day.startNs item.timeNs replay) :
    ∃ replay', replay.handle item = .ok replay' ∧
      DayReplay.Handled item.timeNs replay item replay' ∧
      DayReplay.Following day (day.history start) day.startNs item.timeNs replay' := by
  have hm : item ∈ day.items := by simp [hitems]
  obtain ⟨replay', hok, hstep⟩ := DayReplay.handled_handle h.sound rfl fun row heq =>
    hin.items_named (heq ▸ hm)
  exact ⟨replay', hok, hstep, h.handled (hin.items_inside hm).1 hstep⟩

theorem noTimeLost_of_closesIdle (hin : day.InDay)
    (hsettled : ∀ checkpoint ∈ day.previousCheckpoint, checkpoint.Settled day.startNs)
    (hstart : day.begin = .ok start) (hrun : day.run = .ok out)
    (hidle : StepsMeet DayReplay.handle ClosesIdle start day.items) : day.NoTimeLost out := by
  obtain ⟨start', final, hstart', hfinal, hfinish⟩ := run_ok hrun
  obtain rfl : start = start' := Except.ok.inj (hstart.symm.trans hstart')
  obtain ⟨final', hfinal', hcovering⟩ := timeline_invariant DayItem.timeNs
    (DayReplay.Covering day (day.history start) day.startNs) hin.items_pairwise
    (fun hle h hstill => h.wait hle hstill)
    (fun hitems hdone h => by
      obtain ⟨replay', hok, hstep, -⟩ := following_step hin hitems h.following
      exact ⟨replay', hok, h.handled (hin.items_inside (by simp [hitems])).1
        ((hitems ▸ hidle).at_split hdone) hstep⟩)
    (fun item hm => ⟨(hin.items_inside hm).1, le_of_lt (hin.items_inside hm).2⟩)
    (le_of_lt day.startNs_lt_endNs)
    ⟨following_begin hsettled hstart, fun t c hle hlt => absurd hlt (not_lt.mpr hle)⟩
  obtain rfl : final = final' := Except.ok.inj (hfinal.symm.trans hfinal')
  intro t hle hlt hdue
  obtain ⟨c, hdue⟩ := (due_iff hin hstart).mp hdue
  obtain ⟨interval, hm, hcover⟩ := (hcovering.covered t c hle hlt hdue).ended hlt "utc_day_end"
    hcovering.following.sound.authority_iff
  refine ⟨interval, ?_, hcover⟩
  rw [finish_intervals hfinish]
  exact List.mem_filter.mpr ⟨hm, by simpa using hcover.1.trans_lt hcover.2⟩

/-- A CLOSED event that restarts a running interval loses time that was due. -/
theorem not_noTimeLost_of_not_closesIdle (hin : day.InDay)
    (hsettled : ∀ checkpoint ∈ day.previousCheckpoint, checkpoint.Settled day.startNs)
    (hstart : day.begin = .ok start) (hrun : day.run = .ok out)
    (hbusy : ¬ StepsMeet DayReplay.handle ClosesIdle start day.items) : ¬ day.NoTimeLost out := by
  obtain ⟨start', final, hstart', hfinal, hfinish⟩ := run_ok hrun
  obtain rfl : start = start' := Except.ok.inj (hstart.symm.trans hstart')
  obtain ⟨done, item, rest, replay, hitems, hdone, hbad⟩ := StepsMeet.exists_failure hbusy
  have hwait : ∀ {now later : Int} {replay : DayReplay}, now ≤ later →
      DayReplay.Following day (day.history start) day.startNs now replay →
      (∀ t, now ≤ t → t < later → day.history start t = .ok replay) →
      DayReplay.Following day (day.history start) day.startNs later replay :=
    fun hle h hstill => h.wait hle hstill
  obtain ⟨replay', hdone', hfollow⟩ := timeline_before DayItem.timeNs _
    hin.items_pairwise hwait (fun hitems _ h => by
      obtain ⟨replay', hok, -, hfollow⟩ := following_step hin hitems h
      exact ⟨replay', hok, hfollow⟩) (fun item hm => (hin.items_inside hm).1)
    (following_begin hsettled hstart) hitems
  obtain rfl : replay = replay' := Except.ok.inj (hdone.symm.trans hdone')
  obtain ⟨next, hok, hstep, hfollow'⟩ := following_step hin hitems hfollow
  obtain ⟨t, c, hle, hdue, hlost⟩ := hfollow.lost hbad hstep
  have hsplit := List.pairwise_append.mp (hitems ▸ hin.items_pairwise)
  have hm : item ∈ day.items := by simp [hitems]
  obtain ⟨final', hfinal', -, hlost'⟩ := timeline_between DayItem.timeNs
    (fun now replay => DayReplay.Following day (day.history start) day.startNs now replay ∧
      DayReplay.Lost t now replay) hin.items_pairwise
    (fun hle h hstill => ⟨h.1.wait hle hstill,
      ⟨h.2.before.trans_le hle, h.2.not_covered, h.2.not_running⟩⟩)
    (fun hitems _ h => by
      obtain ⟨replay', hok, hstep, hfollow⟩ := following_step hin hitems h.1
      exact ⟨replay', hok, hfollow, h.2.handled hstep⟩)
    (done ++ [item]) rest [] (by simp [hitems]) (foldlM_concat hdone hok) (fun earlier hearlier => by
      rcases List.mem_append.mp hearlier with hearlier | hearlier
      · exact hsplit.2.2 earlier hearlier item List.mem_cons_self
      · exact (congrArg DayItem.timeNs (List.mem_singleton.mp hearlier)).le)
    (fun later hlater => ⟨(List.pairwise_cons.mp hsplit.2.1).1 later hlater,
      le_of_lt (hin.items_inside (by simp [hitems, hlater])).2⟩)
    (by simp) (le_of_lt (hin.items_inside hm).2) ⟨hfollow', hlost⟩
  have hall : final = final' := by
    rw [List.append_assoc, List.singleton_append, ← hitems] at hfinal'
    exact Except.ok.inj (hfinal.symm.trans hfinal')
  subst hall
  intro hcovered
  obtain ⟨interval, hmem, hcover⟩ := hcovered t hle hlost'.before
    ((due_iff hin hstart).mpr ⟨c, hdue⟩)
  rw [finish_intervals hfinish] at hmem
  exact hlost'.ended "utc_day_end" interval (List.mem_of_mem_filter hmem) hcover

theorem noTimeLost_iff (hin : day.InDay)
    (hsettled : ∀ checkpoint ∈ day.previousCheckpoint, checkpoint.Settled day.startNs)
    (hstart : day.begin = .ok start) (hrun : day.run = .ok out) :
    day.NoTimeLost out ↔ StepsMeet DayReplay.handle ClosesIdle start day.items := by
  constructor
  · intro h
    by_contra hbusy
    exact not_noTimeLost_of_not_closesIdle hin hsettled hstart hrun hbusy h
  · exact noTimeLost_of_closesIdle hin hsettled hstart hrun

theorem noTimeLost_plainDay :
    ∃ start out, plainDay.begin = .ok start ∧ plainDay.run = .ok out ∧
      (plainDay.NoTimeLost out ↔ StepsMeet DayReplay.handle ClosesIdle start plainDay.items) := by
  obtain ⟨start, hstart⟩ : ∃ start, plainDay.begin = .ok start := ⟨_, rfl⟩
  obtain ⟨out, hrun⟩ : ∃ out, plainDay.run = .ok out := ⟨_, rfl⟩
  exact ⟨start, out, hstart, hrun,
    noTimeLost_iff plainDay_inDay (by simp [plainDay]) hstart hrun⟩

/-- The gap is closed a second time, after the crash that followed its first close. -/
def closedAgainDay : L2Day :=
  { plainDay with
    ledger := plainDay.ledger ++ [{
      gapId := "gap-00001", state := .closed, reason := .collectorStopped
      collectorId := "collector", observedAtRealtimeNs := 86400000000090 }] }

/-- The second CLOSED restarts the interval that runs since 60, and [60, 90) is in none. -/
theorem not_noTimeLost_closedAgainDay :
    closedAgainDay.InDay ∧ ∃ out, closedAgainDay.run = .ok out ∧
      ¬ closedAgainDay.NoTimeLost out := by
  have hin : closedAgainDay.InDay := ⟨by decide, by decide, by decide, by decide⟩
  obtain ⟨start, hstart⟩ : ∃ start, closedAgainDay.begin = .ok start := ⟨_, rfl⟩
  obtain ⟨out, hrun⟩ : ∃ out, closedAgainDay.run = .ok out := ⟨_, rfl⟩
  refine ⟨hin, out, hrun, not_noTimeLost_of_not_closesIdle hin (by simp [closedAgainDay, plainDay])
    hstart hrun ?_⟩
  cases hstart
  decide

end L2Day

end MiryFormal
