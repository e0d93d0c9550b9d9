import MiryFormal.Collector.RouteLiveness

/-!
# The keys that a route watches

`liveness_loop` looks keys up in `_last_event` that it found there before it awaited. They stay
there unless an update returns that removes their symbols.
-/

namespace MiryFormal

set_option autoImplicit false

/-! ## The last events -/

namespace RouteTimes
variable {config : RouteTiming} {times after : RouteTimes} {now : ClockReading} {key : LivenessKey}

/-- The keys of `_last_event`. -/
def watchedKeys (times : RouteTimes) : List LivenessKey := times.lastEvent.map Prod.fst

theorem mem_keys_setAll {keys : List LivenessKey} {value : LivenessKey → ClockReading}
    {lastEvent : List (LivenessKey × ClockReading)} :
    key ∈ (setAll keys value lastEvent).map Prod.fst ↔
      key ∈ keys ∨ key ∈ lastEvent.map Prod.fst := by
  unfold setAll
  induction keys generalizing lastEvent with
  | nil => simp
  | cons first keys ih =>
    rw [List.foldl_cons, ih, KeyedDict.mem_keys_set, List.mem_cons]
    tauto

theorem watchedKeys_created {instruments : List String} :
    key ∈ (created config instruments now).watchedKeys ↔ key ∈ livenessKeys config instruments := by
  rw [watchedKeys, created, mem_keys_setAll]
  simp

theorem watchedKeys_markEvent {marked : LivenessKey} :
    key ∈ (times.markEvent now marked).watchedKeys ↔ key ∈ times.watchedKeys := by
  unfold markEvent
  split
  · rename_i hsome
    obtain ⟨reading, hget⟩ := Option.isSome_iff_exists.mp hsome
    obtain ⟨_, hm, rfl⟩ := KeyedDict.mem_of_get hget
    rw [watchedKeys, watchedKeys, KeyedDict.mem_keys_set]
    constructor
    · rintro (rfl | hkey)
      · exact List.mem_map_of_mem hm
      · exact hkey
    · exact .inr
  · rfl

theorem markEvent_instruments {marked : LivenessKey} :
    (times.markEvent now marked).instruments = times.instruments := by
  unfold markEvent
  split <;> rfl

theorem markEvent_update {marked : LivenessKey} :
    (times.markEvent now marked).update = times.update := by
  unfold markEvent
  split <;> rfl

theorem beginUpdate_some {instruments : List String}
    (h : times.beginUpdate config now instruments = some after) :
    times.update = none ∧ after.update = some ⟨instruments, now.realtimeNs⟩ ∧
      after.instruments = times.instruments ∧ ∀ key, key ∈ after.watchedKeys ↔
        key ∈ livenessKeys config (instruments.filter (· ∉ times.instruments)) ∨
          key ∈ times.watchedKeys := by
  unfold beginUpdate at h
  split at h
  · cases h
  · rename_i hnone
    cases h
    refine ⟨?_, rfl, rfl, fun key => mem_keys_setAll⟩
    cases hupdate : times.update with
    | none => rfl
    | some update => exact absurd (.inl (by rw [hupdate]; rfl)) hnone

theorem abandonUpdate_some (h : times.abandonUpdate = some after) :
    after.update = none ∧ after.instruments = times.instruments ∧ ∀ key,
      key ∈ after.watchedKeys ↔ key ∈ times.watchedKeys ∧ key.2 ∈ times.instruments := by
  obtain ⟨update, -, h⟩ := Option.bind_eq_some_iff.mp h
  cases h
  refine ⟨rfl, rfl, fun key => ?_⟩
  simp only [watchedKeys, List.mem_map, List.mem_filter, decide_eq_true_eq]
  constructor
  · rintro ⟨entry, ⟨hm, hsymbol⟩, rfl⟩
    exact ⟨⟨entry, hm, rfl⟩, hsymbol⟩
  · rintro ⟨⟨entry, hm, rfl⟩, hsymbol⟩
    exact ⟨entry, ⟨hm, hsymbol⟩, rfl⟩

theorem finishUpdate_some (h : times.finishUpdate config now = some after) :
    ∃ update ∈ times.update, after.update = none ∧ after.instruments = update.instruments ∧
      ∀ key, key ∈ after.watchedKeys ↔ key ∈ livenessKeys config update.instruments := by
  obtain ⟨update, hupdate, h⟩ := Option.bind_eq_some_iff.mp h
  cases h
  refine ⟨update, hupdate, rfl, rfl, fun key => ?_⟩
  rw [watchedKeys, mem_keys_setAll]
  simp

theorem findStale_some {nowNs : Int} (h : times.findStale config nowNs = some after) :
    ∀ entry ∈ after.stale, entry.1 ∈ times.watchedKeys ∧ entry.1.2 ∈ times.instruments := by
  unfold findStale at h
  split at h
  · cases h
    intro entry hm
    obtain ⟨event, hevent, rfl⟩ := List.mem_map.mp hm
    obtain ⟨hm, hstale⟩ := List.mem_filter.mp hevent
    exact ⟨List.mem_map_of_mem hm, (of_decide_eq_true hstale).1⟩
  · cases h

end RouteTimes

/-! ## The keys of the loop -/

namespace LiveRoute
variable {config : LiveRouteConfig} {now : ClockReading} {route after : LiveRoute}
  {key : LivenessKey} {stale rest : List (LivenessKey × Int)} {generation : Nat}

/-- An update that returns drops no key that the loop uses, and its connection has not ended. An
update fails on no connection that starts. A refresh fails with an error that the loop catches, and
the gap journal does not fail. -/
def Spared (route : LiveRoute) : ClockReading × LiveRouteEvent → Prop
  | (_, .update .returned) => route.served = true ∧ ∀ update ∈ route.times.update,
      ∀ key ∈ route.loop.inUse, key.2 ∈ update.instruments
  | (_, .update .failed) => ∀ connection ∈ route.connection, connection.phase ≠ .starting
  | (_, .liveness (.refreshFailed error)) => error ≠ .other
  | (_, .liveness .gapJournalFailed) => False
  | _ => True

/-- The keys of the loop are those of instruments and are watched, and the loop has not ended. -/
structure Watching (config : LiveRouteConfig) (route : LiveRoute) : Prop where
  types : ∀ key ∈ route.times.watchedKeys, key.1 ∈ config.timing.livenessStreamTypes
  inUse : ∀ key ∈ route.loop.inUse,
    key ∈ route.times.watchedKeys ∧ key.2 ∈ route.times.instruments
  alive : ∀ error, route.loop ≠ .raised error

theorem isSome_lastEvent (h : key ∈ route.times.watchedKeys) : (route.lastEvent key).isSome := by
  obtain ⟨entry, hm, rfl⟩ := List.mem_map.mp h
  have hget : (KeyedDict.get id (id entry.1) route.times.lastEvent).isSome :=
    KeyedDict.isSome_get_of_mem hm
  exact hget

/-- What `liveness_loop` does from one await to the next. -/
inductive Moved (config : LiveRouteConfig) (now : ClockReading) (route : LiveRoute) :
    LivenessEvent → LiveRoute → Prop
  | awake : route.loop = .sleeping →
      Moved config now route .awake
        { route with loop := .closing now.monotonicNs route.activeGaps }
  | gapDone {nowNs openedAfterNs : Int} {key : LivenessKey} {gaps : List (LivenessKey × Int)} :
      route.loop = .closing nowNs ((key, openedAfterNs) :: gaps) →
        Moved config now route .gapDone
          { route with
            activeGaps := route.closeRecovered key openedAfterNs
            loop := .closing nowNs gaps }
  | found {nowNs : Int} {after : LiveRoute} :
      route.loop = .closing nowNs [] → route.findStale config nowNs = some after →
        Moved config now route .found after
  | gapOpened {stale rest : List (LivenessKey × Int)} {key : LivenessKey} {affectedFromNs : Int} :
      route.loop = .opening stale ((key, affectedFromNs) :: rest) →
        Moved config now route .gapOpened (route.openStale key stale rest)
  | refresh {stale : List (LivenessKey × Int)} :
      route.loop = .opening stale [] →
        Moved config now route .refresh { route with loop := .locking route.generation stale }
  | locked {generation : Nat} {stale : List (LivenessKey × Int)} {after : LiveRoute} :
      route.loop = .locking generation stale → route.beginRefresh generation stale = some after →
        Moved config now route .locked after
  | submitted {generation : Nat} {stale : List (LivenessKey × Int)} {after : LiveRoute} :
      route.loop = .refreshing generation stale →
        route.endRefresh now generation stale = some after →
          Moved config now route .submitted after
  | looked {generation : Nat} {stale : List (LivenessKey × Int)} {refreshedAfterNs : Int} :
      route.loop = .waiting generation stale refreshedAfterNs →
        Moved config now route .looked (route.lookForFresh generation stale refreshedAfterNs)
  | refreshedGapClosed {generation : Nat} {rest : List (LivenessKey × Int)} {key : LivenessKey}
      {affectedFromNs : Int} :
      route.loop = .closingRefreshed generation ((key, affectedFromNs) :: rest) →
        Moved config now route .refreshedGapClosed
          { route with
            activeGaps := KeyedDict.pop id key route.activeGaps
            loop := .closingRefreshed generation rest }
  | refreshed {generation : Nat} :
      route.loop = .closingRefreshed generation [] →
        Moved config now route .refreshedGapClosed
          { route with failureGeneration := none, consecutiveFailures := 0, loop := .sleeping }
  | submissionFailed {generation : Nat} {stale : List (LivenessKey × Int)} {error : RefreshError} :
      route.loop = .refreshing generation stale →
        Moved config now route (.refreshFailed error)
          ({ route with submission := none }.failRefresh config generation error)
  | refreshFailed {generation : Nat} {error : RefreshError} :
      route.loop.isRefreshing = false →
        Moved config now route (.refreshFailed error) (route.failRefresh config generation error)
  | gapJournalFailed : route.loop.isRefreshing = false →
      Moved config now route .gapJournalFailed { route with loop := .raised .gapJournal }
  | resumed : route.loop = .resuming →
      Moved config now route .resumed { route with loop := .sleeping }

theorem moved {event : LivenessEvent} (hnext : route.nextLiveness config now event = some after) :
    route.Moved config now event after := by
  unfold nextLiveness at hnext
  split at hnext
  case h_3 hloop => exact .found hloop hnext
  case h_6 hloop => exact .locked hloop hnext
  case h_7 hloop => exact .submitted hloop hnext
  all_goals cases hnext
  case h_1 hloop => exact .awake hloop
  case h_2 hloop => exact .gapDone hloop
  case h_4 hloop => exact .gapOpened hloop
  case h_5 hloop => exact .refresh hloop
  case h_8 hloop => exact .looked hloop
  case h_9 hloop => exact .refreshedGapClosed hloop
  case h_10 hloop => exact .refreshed hloop
  case h_11 hloop => exact .submissionFailed hloop
  case h_12 hloop => exact .refreshFailed (by rw [hloop]; rfl)
  case h_13 hloop => exact .refreshFailed (by rw [hloop]; rfl)
  case h_14 hloop => exact .gapJournalFailed (by rw [hloop]; rfl)
  case h_15 hloop => exact .gapJournalFailed (by rw [hloop]; rfl)
  case h_16 hloop => exact .resumed hloop

namespace Watching

/-- The loop goes on with keys that it has. -/
theorem goes (h : route.Watching config) (htimes : after.times = route.times)
    (hinUse : after.loop.inUse ⊆ route.loop.inUse)
    (halive : ∀ error, after.loop ≠ .raised error) : after.Watching config := by
  refine ⟨?_, fun key hm => ?_, halive⟩
  · rw [htimes]
    exact h.types
  · rw [htimes]
    exact h.inUse key (hinUse hm)

/-- The loop is idle. -/
theorem rests (h : route.Watching config) (htimes : after.times = route.times)
    (hloop : after.loop = .sleeping ∨ after.loop = .resuming) : after.Watching config := by
  refine h.goes htimes ?_ fun error heq => ?_
  · rcases hloop with hloop | hloop <;> rw [hloop] <;> exact List.nil_subset _
  · rcases hloop with hloop | hloop <;> rw [hloop] at heq <;> cases heq

theorem markEvent (h : route.Watching config) (marked : LivenessKey) :
    Watching config { route with times := route.times.markEvent now marked } := by
  refine ⟨fun key hm => h.types key (RouteTimes.watchedKeys_markEvent.mp hm), fun key hm => ?_,
    h.alive⟩
  obtain ⟨hwatched, hsymbol⟩ := h.inUse key hm
  refine ⟨RouteTimes.watchedKeys_markEvent.mpr hwatched, ?_⟩
  rwa [RouteTimes.markEvent_instruments]

theorem nextUpdate (h : route.Watching config) {event : UpdateEvent}
    (hgood : route.Spared (now, .update event))
    (hnext : route.nextUpdate config now event = some after) : after.Watching config := by
  cases event with
  | begun instruments =>
    simp only [LiveRoute.nextUpdate, beginUpdate, Option.ite_none_right_eq_some] at hnext
    obtain ⟨times, htimes, hnext⟩ := Option.bind_eq_some_iff.mp hnext.2
    cases hnext
    obtain ⟨-, -, hinstruments, hkeys⟩ := RouteTimes.beginUpdate_some htimes
    refine ⟨fun key hm => ?_, fun key hm => ?_, h.alive⟩
    · rcases (hkeys key).mp hm with hnew | hold
      · exact (mem_livenessKeys.mp hnew).1
      · exact h.types key hold
    · obtain ⟨hwatched, hsymbol⟩ := h.inUse key hm
      exact ⟨(hkeys key).mpr (.inr hwatched), by rwa [hinstruments]⟩
  | submitted =>
    obtain ⟨update, -, hnext⟩ := Option.bind_eq_some_iff.mp hnext
    obtain ⟨submission, -, hnext⟩ := Option.bind_eq_some_iff.mp hnext
    rw [Option.ite_none_right_eq_some] at hnext
    cases hnext.2
    exact { h with }
  | returned =>
    obtain ⟨update, hupdate, hnext⟩ := Option.bind_eq_some_iff.mp hnext
    rw [Option.ite_none_right_eq_some] at hnext
    obtain ⟨times, htimes, hnext⟩ := Option.bind_eq_some_iff.mp hnext.2
    cases hnext
    obtain ⟨finished, hfinished, -, hinstruments, hkeys⟩ := RouteTimes.finishUpdate_some htimes
    cases hfinished.symm.trans hupdate
    refine ⟨fun key hm => (mem_livenessKeys.mp ((hkeys key).mp hm)).1, fun key hm => ?_, h.alive⟩
    have hsymbol := hgood.2 update hupdate key hm
    refine ⟨(hkeys key).mpr (mem_livenessKeys.mpr ⟨?_, hsymbol⟩), by rwa [hinstruments]⟩
    exact h.types key (h.inUse key hm).1
  | failed =>
    obtain ⟨times, htimes, hnext⟩ := Option.bind_eq_some_iff.mp hnext
    cases hnext
    obtain ⟨-, hinstruments, hkeys⟩ := RouteTimes.abandonUpdate_some htimes
    refine ⟨fun key hm => h.types key ((hkeys key).mp hm).1, fun key hm => ?_, h.alive⟩
    obtain ⟨hwatched, hsymbol⟩ := h.inUse key hm
    exact ⟨(hkeys key).mpr ⟨hwatched, hsymbol⟩, by rwa [hinstruments]⟩

theorem nextConnection (h : route.Watching config) {event : RouteConnectionEvent}
    (hnext : route.nextConnection event = some after) : after.Watching config := by
  suffices hsame : after.times = route.times ∧ after.loop = route.loop by
    refine h.goes hsame.1 ?_ ?_
    · rw [hsame.2]
      exact List.Subset.refl _
    · rw [hsame.2]
      exact h.alive
  cases event with
  | started =>
    simp only [LiveRoute.nextConnection, startConnection, Option.ite_none_right_eq_some] at hnext
    cases hnext.2
    exact ⟨rfl, rfl⟩
  | ended =>
    obtain ⟨connection, -, hnext⟩ := Option.bind_eq_some_iff.mp hnext
    cases hnext
    exact ⟨rfl, rfl⟩
  | activated | reconnectBegun | rotated =>
    obtain ⟨connection, -, hnext⟩ := Option.bind_eq_some_iff.mp hnext
    rw [Option.ite_none_right_eq_some] at hnext
    cases hnext.2
    exact ⟨rfl, rfl⟩
  | updateTaken =>
    obtain ⟨connection, -, hnext⟩ := Option.bind_eq_some_iff.mp hnext
    obtain ⟨submission, -, hnext⟩ := Option.bind_eq_some_iff.mp hnext
    rw [Option.ite_none_right_eq_some] at hnext
    cases hnext.2
    exact ⟨rfl, rfl⟩
  | updateApplied =>
    obtain ⟨connection, -, hnext⟩ := Option.bind_eq_some_iff.mp hnext
    obtain ⟨change, -, hnext⟩ := Option.bind_eq_some_iff.mp hnext
    dsimp only at hnext
    split at hnext <;> cases hnext <;> exact ⟨rfl, rfl⟩

theorem openStale (h : route.Watching config) {affectedFromNs : Int}
    (hloop : route.loop = .opening stale ((key, affectedFromNs) :: rest)) :
    (route.openStale key stale rest).Watching config := by
  have hkey : key ∈ route.loop.inUse := by
    rw [hloop]
    exact List.mem_append_right _ List.mem_cons_self
  have hinUse : LivenessStage.inUse (.opening stale rest) ⊆ route.loop.inUse := by
    rw [hloop]
    intro other hm
    exact List.mem_append.mpr ((List.mem_append.mp hm).imp_right (List.mem_cons_of_mem _))
  unfold LiveRoute.openStale
  split
  · exact h.goes rfl hinUse (by simp)
  · split
    · exact h.goes rfl hinUse (by simp)
    · rename_i hnone
      have hsome := isSome_lastEvent (h.inUse key hkey).1
      rw [hnone] at hsome
      cases hsome

theorem findStale (h : route.Watching config) {nowNs : Int}
    (hfound : route.findStale config nowNs = some after) : after.Watching config := by
  obtain ⟨found, htimes, hfound⟩ := Option.bind_eq_some_iff.mp hfound
  cases hfound
  refine ⟨h.types, fun key hm => ?_, fun error => ?_⟩
  · dsimp only at hm
    split at hm
    · cases hm
    · have hstale : key ∈ found.stale.map Prod.fst := by
        rcases List.mem_append.mp hm with hm | hm <;> exact hm
      obtain ⟨entry, hentry, rfl⟩ := List.mem_map.mp hstale
      exact RouteTimes.findStale_some htimes entry hentry
  · dsimp only
    split <;> simp

theorem mapM_ok (h : route.Watching config) (stale : List (LivenessKey × Int))
    (hstale : ∀ entry ∈ stale, entry.1 ∈ route.loop.inUse) :
    ∃ streams, stale.mapM (fun entry => livenessSubscription entry.1) = .ok streams ∧
      ∀ stream ∈ streams, stream ∈ config.subscriptionsFor route.times.instruments := by
  induction stale with
  | nil => exact ⟨[], rfl, by simp⟩
  | cons entry stale ih =>
    obtain ⟨hwatched, hsymbol⟩ := h.inUse _ (hstale entry List.mem_cons_self)
    obtain ⟨stream, hm, hstream⟩ := config.watched route.times.instruments entry.1
      (mem_livenessKeys.mpr ⟨h.types _ hwatched, hsymbol⟩)
    obtain ⟨streams, hstreams, hall⟩ := ih fun entry hm => hstale entry (List.mem_cons_of_mem _ hm)
    refine ⟨stream :: streams, ?_, List.forall_mem_cons.mpr ⟨hm, hall⟩⟩
    rw [List.mapM_cons, hstream, hstreams]
    rfl

theorem beginRefresh (h : route.Watching config) (hloop : route.loop = .locking generation stale)
    (hnext : route.beginRefresh generation stale = some after) : after.Watching config := by
  obtain ⟨streams, hstreams, -⟩ := h.mapM_ok stale fun entry hm => by
    rw [hloop]
    exact List.mem_map_of_mem hm
  simp only [LiveRoute.beginRefresh, hstreams, Option.ite_none_right_eq_some] at hnext
  cases hnext.2
  refine h.goes rfl ?_ (by simp)
  rw [hloop]
  exact List.Subset.refl _

theorem lookForFresh (h : route.Watching config) {refreshedAfterNs : Int}
    (hloop : route.loop = .waiting generation stale refreshedAfterNs) :
    (route.lookForFresh generation stale refreshedAfterNs).Watching config := by
  unfold LiveRoute.lookForFresh
  split
  · rename_i entry hfind
    have hm : entry.1 ∈ route.loop.inUse := by
      rw [hloop]
      exact List.mem_map_of_mem (List.mem_of_find?_eq_some hfind)
    have hsome := isSome_lastEvent (h.inUse _ hm).1
    have hnone := List.find?_some hfind
    rw [Option.isNone_iff_eq_none.mp hnone] at hsome
    cases hsome
  · split
    · exact h.goes rfl (List.nil_subset _) (by simp)
    · exact h

theorem failRefresh (h : route.Watching config) {error : RefreshError} (herror : error ≠ .other) :
    (route.failRefresh config generation error).Watching config := by
  cases error with
  | overloaded => exact h.rests rfl (.inr rfl)
  | recoverable =>
    unfold LiveRoute.failRefresh
    dsimp only
    split
    · exact h.rests rfl (.inl rfl)
    · exact h.rests rfl (.inl rfl)
  | other => exact absurd rfl herror

theorem nextLiveness (h : route.Watching config) {event : LivenessEvent}
    (hgood : route.Spared (now, .liveness event))
    (hnext : route.nextLiveness config now event = some after) : after.Watching config := by
  cases moved hnext with
  | awake hloop => exact h.goes rfl (List.nil_subset _) (by simp)
  | gapDone hloop => exact h.goes rfl (List.nil_subset _) (by simp)
  | found hloop hfound => exact h.findStale hfound
  | gapOpened hloop => exact h.openStale hloop
  | refresh hloop =>
    refine h.goes rfl ?_ (by simp)
    rw [hloop]
    exact List.subset_append_left _ _
  | locked hloop hbegun => exact h.beginRefresh hloop hbegun
  | submitted hloop hended =>
    obtain ⟨submission, -, hended⟩ := Option.bind_eq_some_iff.mp hended
    rw [Option.ite_none_right_eq_some] at hended
    cases hended.2
    refine h.goes rfl ?_ (by simp)
    rw [hloop]
    exact List.Subset.refl _
  | looked hloop => exact h.lookForFresh hloop
  | refreshedGapClosed hloop => exact h.goes rfl (List.nil_subset _) (by simp)
  | refreshed hloop => exact h.rests rfl (.inl rfl)
  | submissionFailed hloop =>
    have hdropped : Watching config { route with submission := none } := { h with }
    exact hdropped.failRefresh hgood
  | refreshFailed hloop => exact h.failRefresh hgood
  | gapJournalFailed => exact hgood.elim
  | resumed hloop => exact h.rests rfl (.inl rfl)

theorem step (h : route.Watching config) {event : ClockReading × LiveRouteEvent}
    (hgood : route.Spared event) (hstep : route.Step config event after) :
    after.Watching config := by
  obtain ⟨now, event⟩ := event
  cases event with
  | marked key =>
    cases hstep
    exact h.markEvent key
  | update event => exact h.nextUpdate hgood hstep
  | connection event => exact h.nextConnection hstep
  | liveness event => exact h.nextLiveness hgood hstep

end Watching

end LiveRoute

end MiryFormal
