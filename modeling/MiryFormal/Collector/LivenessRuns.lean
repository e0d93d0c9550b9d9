import MiryFormal.Collector.RouteWatching

/-!
# Runs of a route with membership updates

The controller is subscribed to what the instruments need whenever no update is in flight, unless an
update drops a key that is being refreshed, or fails on a connection that starts.
-/

namespace MiryFormal

set_option autoImplicit false

/-- What a difference of sorted sets leads to. -/
theorem apply_sortedDifference (a b : List String) :
    SubscriptionUpdate.apply ⟨sortedDifference b a, sortedDifference a b⟩ a.toFinset =
      b.toFinset := by
  ext stream
  simp only [SubscriptionUpdate.apply, sortedDifference, Finset.mem_union, Finset.mem_sdiff,
    List.mem_toFinset, List.mem_insertionSort, List.mem_dedup, List.mem_filter, decide_eq_true_eq]
  tauto

/-- A refresh of streams that are subscribed to changes nothing. -/
theorem apply_refresh {streams : List String} {subscribed : Finset String}
    (h : ∀ stream ∈ streams, stream ∈ subscribed) :
    SubscriptionUpdate.apply ⟨streams, streams⟩ subscribed = subscribed := by
  ext stream
  have := h stream
  simp only [SubscriptionUpdate.apply, Finset.mem_union, Finset.mem_sdiff, List.mem_toFinset]
  tauto

namespace LiveRoute
variable {config : LiveRouteConfig} {now : ClockReading} {route after : LiveRoute}

/-! ## The subscriptions of the controller -/

/-- What the instruments need. -/
def needed (config : LiveRouteConfig) (route : LiveRoute) : Finset String :=
  (config.subscriptionsFor route.times.instruments).toFinset

/-- What the instruments will need when the update in flight has returned. -/
def proposed (config : LiveRouteConfig) (route : LiveRoute) : Finset String :=
  match route.times.update with
  | some update => (config.subscriptionsFor update.instruments).toFinset
  | none => route.needed config

/-- What the controller should be subscribed to now. -/
def current (config : LiveRouteConfig) (route : LiveRoute) : Finset String :=
  if route.served then route.proposed config else route.needed config

/-- No update has failed on the connection, and it is not to be replaced. -/
def Unspoilt (route : LiveRoute) (connection : RouteConnection) : Prop :=
  connection.phase = .starting ∨ connection.phase = .ready ∧ route.reconnectRequested = false

/-- One holder of the lock at most has a submission, and a connection that is not to be replaced is
subscribed to what it should be, also when it has carried out what it has taken. -/
structure Synced (config : LiveRouteConfig) (route : LiveRoute) : Prop where
  subscriptions : route.subscriptions = config.subscriptionsFor route.times.instruments
  exclusive : route.loop.isRefreshing = true → route.times.update = none
  owned : route.lockFree = true → route.submission = none
  leads : ∀ submission ∈ route.submission,
    submission.change.apply (route.needed config) = route.proposed config
  unserved : ∀ submission ∈ route.submission,
    submission.stage = .queued ∨ submission.stage = .taken → route.served = false
  taken : ∀ submission ∈ route.submission, submission.stage = .taken →
    ∃ connection ∈ route.connection, connection.taken = some submission.change
  active : ∀ connection ∈ route.connection, route.Unspoilt connection →
    connection.active = route.current config
  pending : ∀ connection ∈ route.connection, route.Unspoilt connection →
    ∀ change ∈ connection.taken, change.apply (route.current config) = route.current config ∨
      ∃ submission ∈ route.submission, submission.stage = .taken

theorem lockFree_iff :
    route.lockFree = true ↔ route.times.update = none ∧ route.loop.isRefreshing = false := by
  simp [lockFree]

theorem current_of_idle (h : route.times.update = none) :
    route.current config = route.needed config := by
  unfold current proposed
  rw [h]
  exact ite_self _

theorem current_of_unserved (h : route.served = false) :
    route.current config = route.needed config := by
  unfold current
  rw [h]
  rfl

theorem current_of_served (h : route.served = true) :
    route.current config = route.proposed config := by
  unfold current
  rw [h]
  rfl

namespace Synced

theorem subscribed (h : route.Synced config) :
    route.subscriptions.toFinset = route.needed config := by
  rw [h.subscriptions]
  rfl

/-- Whoever holds the lock holds it still, and nothing is submitted. -/
theorem goes (h : route.Synced config)
    (hinstruments : after.times.instruments = route.times.instruments)
    (hupdate : after.times.update = route.times.update)
    (hrefreshing : after.loop.isRefreshing = route.loop.isRefreshing)
    (hflag : after.reconnectRequested = false → route.reconnectRequested = false)
    (hsubscriptions : after.subscriptions = route.subscriptions)
    (hsubmission : after.submission = route.submission) (hserved : after.served = route.served)
    (hconnection : after.connection = route.connection) : after.Synced config := by
  have hneeded : after.needed config = route.needed config := by rw [needed, needed, hinstruments]
  have hproposed : after.proposed config = route.proposed config := by
    rw [proposed, proposed, hupdate, hneeded]
  have hcurrent : after.current config = route.current config := by
    rw [current, current, hserved, hneeded, hproposed]
  have hunspoilt : ∀ connection, after.Unspoilt connection → route.Unspoilt connection :=
    fun connection => Or.imp_right (And.imp_right hflag)
  constructor
  · rw [hsubscriptions, hinstruments]
    exact h.subscriptions
  · rw [hrefreshing, hupdate]
    exact h.exclusive
  · rw [lockFree_iff, hrefreshing, hupdate, hsubmission, ← lockFree_iff]
    exact h.owned
  · rw [hsubmission, hneeded, hproposed]
    exact h.leads
  · rw [hsubmission, hserved]
    exact h.unserved
  · rw [hsubmission, hconnection]
    exact h.taken
  · rw [hconnection, hcurrent]
    exact fun connection hm hgood => h.active connection hm (hunspoilt connection hgood)
  · rw [hconnection, hcurrent, hsubmission]
    exact fun connection hm hgood => h.pending connection hm (hunspoilt connection hgood)

/-- Without a submission that has been taken, what the controller still carries out changes
nothing. -/
theorem settled (h : route.Synced config)
    (hnone : ∀ submission ∈ route.submission, submission.stage ≠ .taken)
    {connection : RouteConnection} (hm : connection ∈ route.connection)
    (hgood : route.Unspoilt connection) {change : SubscriptionUpdate String}
    (htaken : change ∈ connection.taken) :
    change.apply (route.current config) = route.current config := by
  refine (h.pending connection hm hgood change htaken).resolve_right ?_
  rintro ⟨submission, hsubmission, hstage⟩
  exact hnone submission hsubmission hstage

theorem beginUpdate (h : route.Synced config) {instruments : List String}
    (hnext : route.beginUpdate config now instruments = some after) : after.Synced config := by
  simp only [LiveRoute.beginUpdate, Option.ite_none_right_eq_some] at hnext
  obtain ⟨hfree, hnext⟩ := hnext
  obtain ⟨times, htimes, hnext⟩ := Option.bind_eq_some_iff.mp hnext
  cases hnext
  obtain ⟨hidle, hupdate, hinstruments, -⟩ := RouteTimes.beginUpdate_some htimes
  have hnone := h.owned hfree
  have hcurrent : (config.subscriptionsFor times.instruments).toFinset = route.current config := by
    rw [current_of_idle hidle, needed, hinstruments]
  constructor
  · rw [h.subscriptions, hinstruments]
  · intro hrefreshing
    exact absurd hrefreshing (by simp [(lockFree_iff.mp hfree).2])
  · intro hfree'
    have hnow := (lockFree_iff.mp hfree').1
    rw [hupdate] at hnow
    cases hnow
  · rintro submission ⟨⟩
    have hproposed : LiveRoute.proposed config { route with times } =
        (config.subscriptionsFor instruments).toFinset := by
      rw [proposed, hupdate]
    show SubscriptionUpdate.apply _ (config.subscriptionsFor times.instruments).toFinset =
      LiveRoute.proposed config { route with times }
    rw [hproposed, hinstruments, ← h.subscriptions]
    exact apply_sortedDifference _ _
  · exact fun _ _ _ => rfl
  · rintro submission ⟨⟩ hstage
    cases hstage
  · intro connection hm hgood
    rw [current_of_unserved rfl]
    exact (h.active connection hm hgood).trans hcurrent.symm
  · intro connection hm hgood change htaken
    left
    have hsettled := h.settled (by simp [hnone]) hm hgood htaken
    rw [current_of_unserved rfl]
    show change.apply (config.subscriptionsFor times.instruments).toFinset = _
    rw [hcurrent]
    exact hsettled.trans hcurrent.symm

theorem submitUpdate (h : route.Synced config) (hnext : route.submitUpdate = some after) :
    after.Synced config := by
  obtain ⟨update, hupdate, hnext⟩ := Option.bind_eq_some_iff.mp hnext
  obtain ⟨submission, hsubmission, hnext⟩ := Option.bind_eq_some_iff.mp hnext
  rw [Option.ite_none_right_eq_some] at hnext
  obtain ⟨hstage, hnext⟩ := hnext
  cases hnext
  refine { h with
    owned := fun _ => rfl
    leads := by simp
    unserved := by simp
    taken := by simp
    pending := fun connection hm hgood change htaken => .inl ?_ }
  refine h.settled (fun other hm => ?_) hm hgood htaken
  cases hm.symm.trans hsubmission
  simp [hstage]

theorem finishUpdate (h : route.Synced config) (hserved : route.served = true)
    (hnext : route.finishUpdate config now = some after) : after.Synced config := by
  obtain ⟨update, hupdate, hnext⟩ := Option.bind_eq_some_iff.mp hnext
  rw [Option.ite_none_right_eq_some] at hnext
  obtain ⟨⟨hsubmission, -⟩, hnext⟩ := hnext
  obtain ⟨times, htimes, hnext⟩ := Option.bind_eq_some_iff.mp hnext
  cases hnext
  obtain ⟨finished, hfinished, hidle, hinstruments, -⟩ := RouteTimes.finishUpdate_some htimes
  cases hfinished.symm.trans hupdate
  have hnone := Option.isNone_iff_eq_none.mp hsubmission
  have hcurrent : LiveRoute.current config { route with
      times, subscriptions := config.subscriptionsFor update.instruments } =
        route.current config := by
    rw [current_of_idle hidle, current_of_served hserved, proposed, hupdate, needed, hinstruments]
  constructor
  · rw [hinstruments]
  · exact fun _ => hidle
  · exact fun _ => hnone
  · simp [hnone]
  · simp [hnone]
  · simp [hnone]
  · intro connection hm hgood
    rw [hcurrent]
    exact h.active connection hm hgood
  · intro connection hm hgood change htaken
    rw [hcurrent]
    exact .inl (h.settled (by simp [hnone]) hm hgood htaken)

theorem abandonUpdate (h : route.Synced config)
    (hgood : ∀ connection ∈ route.connection, connection.phase ≠ .starting)
    (hnext : route.abandonUpdate = some after) : after.Synced config := by
  obtain ⟨times, htimes, hnext⟩ := Option.bind_eq_some_iff.mp hnext
  cases hnext
  obtain ⟨hidle, hinstruments, -⟩ := RouteTimes.abandonUpdate_some htimes
  have hspoilt : ∀ connection ∈ route.connection, ¬ LiveRoute.Unspoilt
      { route with times, submission := none, reconnectRequested := true } connection := by
    rintro connection hm (hstarting | ⟨-, hflag⟩)
    · exact hgood connection hm hstarting
    · cases hflag
  constructor
  · rw [hinstruments]
    exact h.subscriptions
  · exact fun _ => hidle
  · exact fun _ => rfl
  · simp
  · simp
  · simp
  · exact fun connection hm hunspoilt => absurd hunspoilt (hspoilt connection hm)
  · exact fun connection hm hunspoilt => absurd hunspoilt (hspoilt connection hm)

theorem startConnection (h : route.Synced config) (hnext : route.startConnection = some after) :
    after.Synced config := by
  simp only [LiveRoute.startConnection, Option.ite_none_right_eq_some] at hnext
  obtain ⟨hnone, hnext⟩ := hnext
  cases hnext
  refine { h with unserved := fun _ _ _ => rfl, taken := ?_, active := ?_, pending := ?_ }
  · intro submission hm hstage
    obtain ⟨connection, hconnection, -⟩ := h.taken submission hm hstage
    rw [Option.isNone_iff_eq_none.mp hnone] at hconnection
    cases hconnection
  · rintro connection ⟨⟩ -
    rw [current_of_unserved rfl]
    exact h.subscribed
  · rintro connection ⟨⟩ - change ⟨⟩

/-- The connection goes on in another phase, and has not been spoilt. -/
theorem goOn (h : route.Synced config) {connection : RouteConnection}
    (hconnection : route.connection = some connection) {phase : ConnectionPhase}
    {reconnectRequested : Bool} {generation : Nat}
    (hgood : LiveRoute.Unspoilt { route with reconnectRequested } { connection with phase } →
      route.Unspoilt connection) :
    Synced config { route with
      reconnectRequested, generation, connection := some { connection with phase } } := by
  refine { h with taken := ?_, active := ?_, pending := ?_ }
  · intro submission hm hstage
    obtain ⟨taker, htaker, htaken⟩ := h.taken submission hm hstage
    cases htaker.symm.trans hconnection
    exact ⟨_, rfl, htaken⟩
  · rintro _ ⟨⟩ hunspoilt
    exact h.active connection hconnection (hgood hunspoilt)
  · rintro _ ⟨⟩ hunspoilt
    exact h.pending connection hconnection (hgood hunspoilt)

theorem endConnection (h : route.Synced config) (hnext : route.endConnection = some after) :
    after.Synced config := by
  obtain ⟨connection, hconnection, hnext⟩ := Option.bind_eq_some_iff.mp hnext
  cases hnext
  refine { h with
    owned := fun hfree => ?_, leads := ?_, unserved := ?_, taken := ?_
    active := nofun, pending := nofun }
  · show route.submission.map _ = none
    rw [h.owned hfree]
    rfl
  · intro submission hm
    obtain ⟨before, hbefore, rfl⟩ := Option.map_eq_some_iff.mp hm
    split <;> exact h.leads before hbefore
  · intro submission hm hstage
    obtain ⟨before, hbefore, rfl⟩ := Option.map_eq_some_iff.mp hm
    split at hstage
    · exact h.unserved before hbefore hstage
    · simp at hstage
  · intro submission hm hstage
    obtain ⟨before, hbefore, rfl⟩ := Option.map_eq_some_iff.mp hm
    split at hstage
    · rename_i hqueued
      rw [hqueued] at hstage
      cases hstage
    · cases hstage

theorem rotate (h : route.Synced config) (hnext : route.rotate = some after) :
    after.Synced config := by
  obtain ⟨connection, hconnection, hnext⟩ := Option.bind_eq_some_iff.mp hnext
  rw [Option.ite_none_right_eq_some] at hnext
  obtain ⟨⟨hfree, -⟩, hnext⟩ := hnext
  cases hnext
  refine { h with taken := ?_, active := ?_, pending := ?_ }
  · intro submission hm
    rw [h.owned hfree] at hm
    cases hm
  · rintro _ ⟨⟩ -
    exact h.subscribed.trans (current_of_idle (lockFree_iff.mp hfree).1).symm
  · rintro _ ⟨⟩ - change ⟨⟩

theorem takeUpdate (h : route.Synced config) (hnext : route.takeUpdate = some after) :
    after.Synced config := by
  obtain ⟨connection, hconnection, hnext⟩ := Option.bind_eq_some_iff.mp hnext
  obtain ⟨submission, hsubmission, hnext⟩ := Option.bind_eq_some_iff.mp hnext
  rw [Option.ite_none_right_eq_some] at hnext
  obtain ⟨⟨-, hqueued⟩, hnext⟩ := hnext
  cases hnext
  refine { h with
    owned := fun hfree => ?_, leads := ?_, unserved := ?_, taken := ?_, active := ?_
    pending := ?_ }
  · have hnone := h.owned hfree
    rw [hnone] at hsubmission
    cases hsubmission
  · rintro _ ⟨⟩
    exact h.leads submission hsubmission
  · rintro _ ⟨⟩ -
    exact h.unserved submission hsubmission (.inl hqueued)
  · rintro _ ⟨⟩ -
    exact ⟨_, rfl, rfl⟩
  · rintro _ ⟨⟩ hunspoilt
    exact h.active connection hconnection hunspoilt
  · rintro _ ⟨⟩ - change -
    exact .inr ⟨_, rfl, rfl⟩

theorem applyUpdate (h : route.Synced config) (hnext : route.applyUpdate = some after) :
    after.Synced config := by
  obtain ⟨connection, hconnection, hnext⟩ := Option.bind_eq_some_iff.mp hnext
  obtain ⟨change, hchange, hnext⟩ := Option.bind_eq_some_iff.mp hnext
  dsimp only at hnext
  split at hnext
  · -- The update of whoever holds the lock.
    rename_i submitted hsubmission
    cases hnext
    have hserved := h.unserved _ hsubmission (.inr rfl)
    obtain ⟨taker, htaker, htaken⟩ := h.taken _ hsubmission rfl
    cases htaker.symm.trans hconnection
    cases htaken.symm.trans hchange
    refine { h with
      owned := fun hfree => ?_, leads := ?_, unserved := ?_, taken := ?_, active := ?_
      pending := ?_ }
    · rw [h.owned hfree] at hsubmission
      cases hsubmission
    · rintro _ ⟨⟩
      exact h.leads ⟨submitted, .taken⟩ hsubmission
    · rintro _ ⟨⟩ hstage
      simp at hstage
    · rintro _ ⟨⟩ ⟨⟩
    · rintro _ ⟨⟩ hunspoilt
      have hactive := h.active connection hconnection hunspoilt
      rw [current_of_served rfl]
      show submitted.apply connection.active = _
      rw [hactive, current_of_unserved hserved]
      exact h.leads _ hsubmission
    · rintro _ ⟨⟩ - change ⟨⟩
  · -- An update that nobody awaits any more.
    rename_i hother
    cases hnext
    have hnone : ∀ submission ∈ route.submission, submission.stage ≠ .taken := by
      rintro ⟨submitted, stage⟩ hm rfl
      exact hother submitted hm
    refine { h with taken := ?_, active := ?_, pending := ?_ }
    · exact fun submission hm hstage => absurd hstage (hnone submission hm)
    · rintro _ ⟨⟩ hunspoilt
      show change.apply connection.active = route.current config
      rw [h.active connection hconnection hunspoilt]
      exact h.settled hnone hconnection hunspoilt hchange
    · rintro _ ⟨⟩ - change ⟨⟩

theorem nextConnection (h : route.Synced config) {event : RouteConnectionEvent}
    (hnext : route.nextConnection event = some after) : after.Synced config := by
  cases event with
  | started => exact h.startConnection hnext
  | ended => exact h.endConnection hnext
  | rotated => exact h.rotate hnext
  | updateTaken => exact h.takeUpdate hnext
  | updateApplied => exact h.applyUpdate hnext
  | activated =>
    obtain ⟨connection, hconnection, hnext⟩ := Option.bind_eq_some_iff.mp hnext
    rw [Option.ite_none_right_eq_some] at hnext
    obtain ⟨hstarting, hnext⟩ := hnext
    cases hnext
    exact h.goOn hconnection fun _ => .inl hstarting
  | reconnectBegun =>
    obtain ⟨connection, hconnection, hnext⟩ := Option.bind_eq_some_iff.mp hnext
    rw [Option.ite_none_right_eq_some] at hnext
    cases hnext.2
    refine h.goOn hconnection fun hunspoilt => ?_
    rcases hunspoilt with hphase | ⟨hphase, -⟩ <;> cases hphase

theorem beginRefresh (h : route.Synced config) (hwatching : route.Watching config)
    {generation : Nat} {stale : List (LivenessKey × Int)}
    (hloop : route.loop = .locking generation stale)
    (hnext : route.beginRefresh generation stale = some after) : after.Synced config := by
  obtain ⟨streams, hstreams, hneeded⟩ := hwatching.mapM_ok stale fun entry hm => by
    rw [hloop]
    exact List.mem_map_of_mem hm
  simp only [LiveRoute.beginRefresh, hstreams, Option.ite_none_right_eq_some] at hnext
  obtain ⟨hfree, hnext⟩ := hnext
  cases hnext
  have hidle := (lockFree_iff.mp hfree).1
  have hcurrent : route.current config = route.needed config := current_of_idle hidle
  have hproposed : route.proposed config = route.needed config := by rw [proposed, hidle]
  constructor
  · exact h.subscriptions
  · exact fun _ => hidle
  · intro hfree'
    cases (lockFree_iff.mp hfree').2
  · rintro _ ⟨⟩
    refine (apply_refresh fun stream hm => ?_).trans hproposed.symm
    exact List.mem_toFinset.mpr (hneeded stream ((List.mem_insertionSort _).mp hm))
  · exact fun _ _ _ => rfl
  · rintro _ ⟨⟩ ⟨⟩
  · intro connection hm hgood
    exact (h.active connection hm hgood).trans hcurrent
  · intro connection hm hgood change htaken
    have hsettled := h.settled (by simp [h.owned hfree]) hm hgood htaken
    rw [hcurrent] at hsettled
    exact .inl hsettled

theorem endRefresh (h : route.Synced config) {generation : Nat}
    {stale : List (LivenessKey × Int)}
    (hnext : route.endRefresh now generation stale = some after) : after.Synced config := by
  obtain ⟨submission, hsubmission, hnext⟩ := Option.bind_eq_some_iff.mp hnext
  rw [Option.ite_none_right_eq_some] at hnext
  obtain ⟨hstage, hnext⟩ := hnext
  cases hnext
  refine { h with
    exclusive := nofun
    owned := fun _ => rfl
    leads := by simp
    unserved := by simp
    taken := by simp
    pending := fun connection hm hgood change htaken => .inl ?_ }
  refine h.settled (fun other hm => ?_) hm hgood htaken
  cases hm.symm.trans hsubmission
  simp [hstage]

/-- The controller goes on with a refresh that has failed. -/
theorem dropRefresh (h : route.Synced config) (hrefreshing : route.loop.isRefreshing = true) :
    Synced config { route with submission := none, loop := .sleeping } := by
  have hidle := h.exclusive hrefreshing
  refine { h with
    exclusive := nofun
    owned := fun _ => rfl
    leads := by simp
    unserved := by simp
    taken := by simp
    pending := fun connection hm hgood change htaken => .inl ?_ }
  show change.apply (route.current config) = route.current config
  rcases h.pending connection hm hgood change htaken with hsettled | ⟨submission, hs, hstage⟩
  · exact hsettled
  · obtain ⟨taker, htaker, htaken'⟩ := h.taken submission hs hstage
    cases htaker.symm.trans hm
    cases htaken'.symm.trans htaken
    rw [current_of_idle hidle]
    have hleads := h.leads submission hs
    rwa [proposed, hidle] at hleads

/-- A failed refresh may ask for a reconnect. -/
theorem failRefresh (h : route.Synced config) (hloop : route.loop.isRefreshing = false)
    {generation : Nat} (error : RefreshError) :
    (route.failRefresh config generation error).Synced config := by
  cases error with
  | overloaded | other => exact h.goes rfl rfl hloop.symm id rfl rfl rfl rfl
  | recoverable =>
    unfold LiveRoute.failRefresh
    dsimp only
    split
    · refine h.goes rfl rfl hloop.symm (fun hflag => ?_) rfl rfl rfl rfl
      exact (Bool.or_eq_false_iff.mp hflag).1
    · exact h.goes rfl rfl hloop.symm id rfl rfl rfl rfl

theorem submissionFailed (h : route.Synced config) (hrefreshing : route.loop.isRefreshing = true)
    {generation : Nat} (error : RefreshError) :
    (LiveRoute.failRefresh config { route with submission := none } generation error).Synced
      config := by
  have hfailed : ∀ error : RefreshError, (LiveRoute.failRefresh config
      { route with submission := none, loop := .sleeping } generation error).Synced config :=
    fun error => (h.dropRefresh hrefreshing).failRefresh rfl error
  cases error with
  | overloaded => exact hfailed .overloaded
  | recoverable => exact hfailed .recoverable
  | other => exact hfailed .other

theorem nextLiveness (h : route.Synced config) (hwatching : route.Watching config)
    {event : LivenessEvent} (hnext : route.nextLiveness config now event = some after) :
    after.Synced config := by
  have hstays : ∀ {after : LiveRoute}, route.loop.isRefreshing = false →
      after = { route with loop := after.loop, activeGaps := after.activeGaps } →
        after.loop.isRefreshing = false → after.Synced config := by
    intro after hbefore hafter hloop
    rw [hafter]
    exact h.goes rfl rfl (hloop.trans hbefore.symm) id rfl rfl rfl rfl
  cases moved hnext with
  | awake hloop => exact hstays (by rw [hloop]; rfl) rfl rfl
  | gapDone hloop => exact hstays (by rw [hloop]; rfl) rfl rfl
  | found hloop hfound =>
    obtain ⟨found, -, hfound⟩ := Option.bind_eq_some_iff.mp hfound
    cases hfound
    refine hstays (by rw [hloop]; rfl) rfl ?_
    dsimp only
    split <;> rfl
  | gapOpened hloop =>
    refine hstays (by rw [hloop]; rfl) ?_ ?_ <;> unfold openStale <;> split
    · rfl
    · split <;> rfl
    · rfl
    · split <;> rfl
  | refresh hloop => exact hstays (by rw [hloop]; rfl) rfl rfl
  | locked hloop hbegun => exact h.beginRefresh hwatching hloop hbegun
  | submitted hloop hended => exact h.endRefresh hended
  | looked hloop =>
    refine hstays (by rw [hloop]; rfl) ?_ ?_ <;> unfold lookForFresh <;> split
    · rfl
    · split <;> rfl
    · rfl
    · split
      · rfl
      · rw [hloop]; rfl
  | refreshedGapClosed hloop => exact hstays (by rw [hloop]; rfl) rfl rfl
  | refreshed hloop => exact h.goes rfl rfl (by rw [hloop]; rfl) id rfl rfl rfl rfl
  | submissionFailed hloop => exact h.submissionFailed (by rw [hloop]; rfl) _
  | refreshFailed hloop => exact h.failRefresh hloop _
  | gapJournalFailed hloop => exact hstays hloop rfl rfl
  | resumed hloop => exact hstays (by rw [hloop]; rfl) rfl rfl

theorem step (h : route.Synced config) (hwatching : route.Watching config)
    {event : ClockReading × LiveRouteEvent} (hgood : route.Spared event)
    (hstep : route.Step config event after) : after.Synced config := by
  obtain ⟨now, event⟩ := event
  cases event with
  | marked key =>
    cases hstep
    refine h.goes ?_ ?_ rfl id rfl rfl rfl rfl
    · exact RouteTimes.markEvent_instruments
    · exact RouteTimes.markEvent_update
  | update event =>
    cases event with
    | begun instruments => exact h.beginUpdate hstep
    | submitted => exact h.submitUpdate hstep
    | returned => exact h.finishUpdate hgood.1 hstep
    | failed => exact h.abandonUpdate hgood hstep
  | connection event => exact h.nextConnection hstep
  | liveness event => exact h.nextLiveness hwatching hstep

end Synced

/-- `liveness_loop` has not ended, and without an update in flight and a reconnect to come the
controller is subscribed to exactly what the instruments need. -/
structure KeepsWatch (config : LiveRouteConfig) (route : LiveRoute) : Prop where
  alive : ∀ error, route.loop ≠ .raised error
  subscribed : route.times.update = none → route.reconnectRequested = false →
    ∀ connection ∈ route.connection, connection.phase ≠ .leaving →
      connection.active = route.needed config

structure Sound (config : LiveRouteConfig) (route : LiveRoute) : Prop extends
  Watching config route, Synced config route

theorem Sound.step (h : route.Sound config) {event : ClockReading × LiveRouteEvent}
    (hgood : route.Spared event) (hstep : route.Step config event after) : after.Sound config :=
  ⟨h.toWatching.step hgood hstep, h.toSynced.step h.toWatching hgood hstep⟩

theorem created_sound (instruments : List String) :
    (created config now instruments).Sound config where
  types _ hm := (mem_livenessKeys.mp (RouteTimes.watchedKeys_created.mp hm)).1
  inUse := nofun
  alive := nofun
  subscriptions := rfl
  exclusive := nofun
  owned _ := rfl
  leads := nofun
  unserved := nofun
  taken := nofun
  active := nofun
  pending := nofun

/-- In a run in which no update drops a key that the loop uses, or fails on a connection that
starts, the loop does not end and no removed symbol is subscribed to. -/
theorem run_keepsWatch {instruments : List String} {events : List (ClockReading × LiveRouteEvent)}
    (hrun : Run (Guarded Spared (Step config)) (created config now instruments) events route) :
    route.KeepsWatch config := by
  have hsound : route.Sound config :=
    hrun.preserves (fun h hstep => h.step hstep.1 hstep.2) (created_sound instruments)
  refine ⟨hsound.alive, fun hidle hflag connection hm hphase => ?_⟩
  have hunspoilt : route.Unspoilt connection := by
    cases hcases : connection.phase with
    | starting => exact .inl hcases
    | ready => exact .inr ⟨hcases, hflag⟩
    | leaving => exact absurd hcases hphase
  rw [hsound.active connection hm hunspoilt, current_of_idle hidle]

/-! ### A key that is silent while the instruments change -/

namespace Spared

instance decidable (route : LiveRoute) :
    ∀ event : ClockReading × LiveRouteEvent, Decidable (route.Spared event)
  | (_, .update .returned) =>
      inferInstanceAs (Decidable (route.served = true ∧ ∀ update ∈ route.times.update,
        ∀ key ∈ route.loop.inUse, key.2 ∈ update.instruments))
  | (_, .update .failed) =>
      inferInstanceAs (Decidable (∀ connection ∈ route.connection, connection.phase ≠ .starting))
  | (_, .liveness (.refreshFailed error)) => inferInstanceAs (Decidable (error ≠ .other))
  | (_, .liveness .gapJournalFailed) => .isFalse id
  | (_, .marked _) | (_, .update (.begun _)) | (_, .update .submitted) | (_, .connection _)
  | (_, .liveness .awake) | (_, .liveness .gapDone) | (_, .liveness .found)
  | (_, .liveness .gapOpened) | (_, .liveness .refresh) | (_, .liveness .locked)
  | (_, .liveness .submitted) | (_, .liveness .looked) | (_, .liveness .refreshedGapClosed)
  | (_, .liveness .resumed) => .isTrue trivial

end Spared

/-- A public route with the default times. -/
def publicLive : LiveRouteConfig := publicRoute RouteDays.publicTiming rfl false 2

def twoSymbols : LiveRoute := created publicLive (RouteDays.clockAt 0 0) ["BTCUSDT", "ETHUSDT"]

/-- The events, each at its second. -/
def atSeconds (events : List (Int × LiveRouteEvent)) : List (ClockReading × LiveRouteEvent) :=
  events.map fun event => (RouteDays.clockAt 0 event.1, event.2)

/-- The book ticker of ETHUSDT is silent for 31 seconds, and its gap is to be opened. -/
def tickerSilent : List (Int × LiveRouteEvent) :=
  [(1, .connection .started), (2, .connection .activated),
    (31, .marked (.bookTicker, "BTCUSDT")), (31, .marked (.depth, "BTCUSDT")),
    (31, .marked (.depth, "ETHUSDT")), (31, .liveness .awake), (31, .liveness .found)]

/-- An update is sent and acknowledged. -/
def sent (seconds : Int) (holder : LiveRouteEvent) : List (Int × LiveRouteEvent) :=
  [(seconds, .connection .updateTaken), (seconds, .connection .updateApplied), (seconds, holder)]

/-- ETHUSDT is removed while its gap is opened. -/
def removedInOpen : List (ClockReading × LiveRouteEvent) :=
  atSeconds (tickerSilent ++ [(31, .update (.begun ["BTCUSDT"]))] ++ sent 32 (.update .submitted) ++
    [(32, .update .returned), (32, .liveness .gapOpened)])

/-- ETHUSDT is removed while the refresh of its book ticker waits for the lock. -/
def removedInRefresh : List (ClockReading × LiveRouteEvent) :=
  atSeconds (tickerSilent ++
    [(31, .liveness .gapOpened), (31, .update (.begun ["BTCUSDT"])), (31, .liveness .refresh)] ++
    sent 32 (.update .submitted) ++ [(32, .update .returned), (32, .liveness .locked)] ++
    sent 33 (.liveness .submitted))

/-- BTCUSDT is removed and SOLUSDT is added while the refresh waits for the lock. -/
def replacedInRefresh : List (ClockReading × LiveRouteEvent) :=
  atSeconds (tickerSilent ++
    [(31, .update (.begun ["ETHUSDT", "SOLUSDT"])), (31, .liveness .gapOpened),
      (31, .liveness .refresh)] ++ sent 32 (.update .submitted) ++
    [(33, .marked (.bookTicker, "SOLUSDT")), (33, .marked (.depth, "SOLUSDT")),
      (33, .update .returned), (33, .liveness .locked)] ++ sent 34 (.liveness .submitted) ++
    [(35, .marked (.bookTicker, "ETHUSDT")), (35, .liveness .looked),
      (35, .liveness .refreshedGapClosed), (35, .liveness .refreshedGapClosed)])

/-- `next`, for the events that meet the condition. -/
def sparedNext (route : LiveRoute) (event : ClockReading × LiveRouteEvent) : Option LiveRoute :=
  if route.Spared event then route.next publicLive event.1 event.2 else none

def runAll (events : List (ClockReading × LiveRouteEvent)) : Option LiveRoute :=
  events.foldlM (fun (route : LiveRoute) event => route.next publicLive event.1 event.2) twoSymbols

theorem run_of_runAll {events : List (ClockReading × LiveRouteEvent)} {route : LiveRoute}
    (h : runAll events = some route) : Run (Step publicLive) twoSymbols events route :=
  run_of_foldlM (fun _ _ _ hnext => hnext) h

/-- No update is in flight, and the connection is not to be replaced. -/
def Calm (route : LiveRoute) : Prop :=
  route.times.update = none ∧ route.reconnectRequested = false ∧
    route.connection.map RouteConnection.phase = some .ready

theorem KeepsWatch.of_calm {config : LiveRouteConfig} {route : LiveRoute}
    (h : route.KeepsWatch config) (hcalm : route.Calm) :
    route.connection.map RouteConnection.active = some (route.needed config) := by
  obtain ⟨hidle, hflag, hphase⟩ := hcalm
  obtain ⟨connection, hm, hready⟩ := Option.map_eq_some_iff.mp hphase
  rw [hm, Option.map_some, h.subscribed hidle hflag connection hm (by simp [hready])]

theorem run_keepsWatch_replaced :
    ∃ route, Run (Guarded Spared (Step publicLive)) twoSymbols replacedInRefresh route ∧
      route.loop = .sleeping ∧ route.activeGaps = [] ∧
      route.connection.map RouteConnection.active =
        some (publicSubscriptions false ["ETHUSDT", "SOLUSDT"]).toFinset := by
  have hfacts : ((replacedInRefresh.foldlM sparedNext twoSymbols).any fun route =>
      route.loop = .sleeping ∧ route.activeGaps = [] ∧
        route.times.instruments = ["ETHUSDT", "SOLUSDT"] ∧ route.times.update = none ∧
        route.reconnectRequested = false ∧
        route.connection.map RouteConnection.phase = some .ready) = true := by
    decide +kernel
  obtain ⟨route, hroute, hfacts⟩ := (Option.any_eq_true _ _).mp hfacts
  obtain ⟨hloop, hgaps, hinstruments, hcalm⟩ := of_decide_eq_true hfacts
  have hstep : ∀ before event after, sparedNext before event = some after →
      Guarded Spared (Step publicLive) before event after :=
    fun _ _ _ hnext => Option.ite_none_right_eq_some.mp hnext
  have hrun := run_of_foldlM hstep hroute
  refine ⟨route, hrun, hloop, hgaps, ?_⟩
  rw [(run_keepsWatch hrun).of_calm hcalm, needed, hinstruments]
  rfl

/-- `liveness_loop` ends with a `KeyError`, or subscribes to a symbol that has been removed. -/
theorem not_always_keepsWatch :
    (∃ route, Run (Step publicLive) twoSymbols removedInOpen route ∧
      route.loop = .raised (.keyError (.bookTicker, "ETHUSDT"))) ∧
    ∃ route, Run (Step publicLive) twoSymbols removedInRefresh route ∧
      route.times.instruments = ["BTCUSDT"] ∧ route.Calm ∧ ¬ route.KeepsWatch publicLive := by
  constructor
  · have hloop : ((runAll removedInOpen).any fun route =>
        route.loop = .raised (.keyError (.bookTicker, "ETHUSDT"))) = true := by
      decide +kernel
    obtain ⟨route, hroute, hloop⟩ := (Option.any_eq_true _ _).mp hloop
    exact ⟨route, run_of_runAll hroute, of_decide_eq_true hloop⟩
  · have hfacts : ((runAll removedInRefresh).any fun route =>
        route.times.instruments = ["BTCUSDT"] ∧ (route.times.update = none ∧
          route.reconnectRequested = false ∧
          route.connection.map RouteConnection.phase = some .ready) ∧
        route.connection.map RouteConnection.active ≠
          some (publicSubscriptions false ["BTCUSDT"]).toFinset) = true := by
      decide +kernel
    obtain ⟨route, hroute, hfacts⟩ := (Option.any_eq_true _ _).mp hfacts
    obtain ⟨hinstruments, hcalm, hactive⟩ := of_decide_eq_true hfacts
    refine ⟨route, run_of_runAll hroute, hinstruments, hcalm, fun h => hactive ?_⟩
    rw [h.of_calm hcalm, needed, hinstruments]
    rfl

end LiveRoute

end MiryFormal
