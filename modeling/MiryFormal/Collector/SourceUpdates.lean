import MiryFormal.Collector.AddReadyRemove
import MiryFormal.Collector.ShardingRuns

/-!
# The sources and their updates

`SourceManager` splits the instruments among the public routes, and gives all of them to the market
route and to the pollers. An update to new instruments and a rebalance of the public routes hold the
update lock while `_add_ready_remove` carries out their plans. An update that has failed may leave
the market route or the pollers with something else than the next plan says they have.
-/

namespace MiryFormal

set_option autoImplicit false

variable {Symbol : Type} [LinearOrder Symbol]

/-! ## Routes that hold something else than their plan says -/

def PlannedRoute.startExpansionAt (plan : RoutePlan Symbol) (held : List Symbol) :
    PlannedRoute Symbol where
  plan
  held
  expansion := if plan.expands then .running held plan.expanded else .notCalled

namespace RoutePlanning

def startAt (plans : List (RoutePlan Symbol)) (held : List (List Symbol)) :
    RoutePlanning Symbol where
  phase := if plans.any RoutePlan.changed then .expanding else .finished .unchanged
  routes := plans.zipWith PlannedRoute.startExpansionAt held

theorem startAt_current (plans : List (RoutePlan Symbol)) :
    startAt plans (plans.map RoutePlan.current) = start plans := by
  unfold startAt start
  congr 1
  induction plans with
  | nil => rfl
  | cons plan plans ih =>
    rw [List.map_cons, List.zipWith_cons_cons, List.map_cons, ih]
    rfl

end RoutePlanning

/-- `_add_ready_remove` for routes that hold `held`: it ends with `outcome` and leaves `after`. -/
def AddReadyRemove (plans : List (RoutePlan Symbol)) (held : List (List Symbol))
    (outcome : RouteOutcome) (after : List (List Symbol)) : Prop :=
  ∃ events planning, Run RoutePlanning.Step (RoutePlanning.startAt plans held) events planning ∧
    planning.phase = .finished outcome ∧ planning.routes.map PlannedRoute.held = after

def RouteOutcome.succeeded : RouteOutcome → Bool
  | unchanged | changed => true
  | _ => false

/-- The outcomes that `update_instruments` raises as a `SourceUpdateError`. -/
def RouteOutcome.incomplete : RouteOutcome → Bool
  | expansionFailed | removalIncomplete => true
  | _ => false

theorem RouteOutcome.not_succeeded {outcome : RouteOutcome} (h : outcome.incomplete = true) :
    outcome.succeeded = false := by
  cases outcome with
  | expansionFailed | removalIncomplete => rfl
  | unchanged | changed | expansionCancelled | removalCancelled => cases h

/-- A call that leads to a tuple. -/
structure UpdateCall.Toward (after held : List Symbol) (call : UpdateCall Symbol) : Prop where
  running : ∀ old new, call = running old new → new = after
  updated : call = returned .updated → held = after

namespace UpdateCall.Toward
variable {after held old new : List Symbol}
omit [LinearOrder Symbol]

theorem notCalled : Toward after held UpdateCall.notCalled := ⟨nofun, nofun⟩

theorem start : Toward after held (.running held after) := by
  refine ⟨?_, nofun⟩
  intro old new hrunning
  cases hrunning
  rfl

theorem applied (h : Toward after held (.running old new)) : Toward after new (.running old new) :=
  ⟨h.running, nofun⟩

theorem withdrawn (h : Toward after held (.running old new)) :
    Toward after old (.running old new) := ⟨h.running, nofun⟩

theorem returned (h : Toward after held (.running old new)) {result : UpdateResult} {kept : Bool}
    (hkept : result = .updated → kept = true) :
    Toward after (if kept then new else old) (.returned result) := by
  refine ⟨nofun, ?_⟩
  intro hupdated
  cases hupdated
  rw [hkept rfl]
  exact h.running old new rfl

end UpdateCall.Toward

theorem RoutePlan.expands_of_not_trims {plan : RoutePlan Symbol} (hchanged : plan.changed = true)
    (htrims : plan.trims = false) : plan.expands = true ∧ plan.expanded = plan.target := by
  have heq : plan.target = plan.expanded := by
    unfold RoutePlan.trims at htrims
    simpa [hchanged] using htrims
  refine ⟨?_, heq.symm⟩
  have hne : plan.current ≠ plan.target := of_decide_eq_true hchanged
  unfold RoutePlan.expands
  rw [hchanged, Bool.true_and, decide_eq_true_eq, ← heq]
  exact hne.symm

namespace PlannedRoute

/-- What a route leads to in a phase that can still succeed. -/
def Ahead (route : PlannedRoute Symbol) : RoutePhase → Prop
  | .expanding =>
      (route.expansion = .notCalled ↔ route.plan.expands = false) ∧
        route.expansion.Toward route.plan.expanded route.held ∧ route.removal = .notCalled
  | .trimming =>
      (route.removal = .notCalled ↔ route.plan.trims = false) ∧
        route.removal.Toward route.plan.target route.held ∧
        (route.removal = .notCalled → route.plan.expands = true →
          route.held = route.plan.expanded)
  | .finished .changed => route.plan.changed = true → route.held = route.plan.target
  | .finished .unchanged => route.plan.changed = false
  | _ => True

/-- A route whose plan changes nothing is never called. -/
structure Still (first : List Symbol) (route : PlannedRoute Symbol) : Prop where
  held : route.held = first
  notCalled : ∀ phase, route.call phase = .notCalled

structure Tracks (phase : RoutePhase) (first : List Symbol) (route : PlannedRoute Symbol) :
    Prop where
  still : route.plan.changed = false → route.Still first
  ahead : route.Ahead phase

end PlannedRoute

namespace RoutePlanning
variable {plans : List (RoutePlan Symbol)} {held : List (List Symbol)}
  {planning next : RoutePlanning Symbol}

structure Leads (plans : List (RoutePlan Symbol)) (held : List (List Symbol))
    (planning : RoutePlanning Symbol) : Prop where
  plans : planning.routes.map PlannedRoute.plan = plans
  tracks : List.Forall₂ (PlannedRoute.Tracks planning.phase) held planning.routes

theorem forall₂_set {α β : Type} {R : α → β → Prop} {as : List α} {bs : List β} {b b' : β}
    {i : Nat} (h : List.Forall₂ R as bs) (hb : bs[i]? = some b) (hstep : ∀ a, R a b → R a b') :
    List.Forall₂ R as (bs.set i b') := by
  induction h generalizing i with
  | nil => exact .nil
  | cons hab htail ih =>
    cases i with
    | zero =>
      obtain rfl := Option.some.inj hb
      exact .cons (hstep _ hab) htail
    | succ i => exact .cons hab (ih hb)

theorem leads_startAt (hlength : plans.length = held.length) :
    (startAt plans held).Leads plans held := by
  unfold startAt
  constructor
  · dsimp only
    induction plans generalizing held with
    | nil => rfl
    | cons plan plans ih =>
      cases held with
      | nil => cases hlength
      | cons first held =>
        rw [List.zipWith_cons_cons, List.map_cons, ih (Nat.succ.inj hlength)]
        rfl
  · dsimp only
    have htracks : ∀ (plan : RoutePlan Symbol) (first : List Symbol),
        (plan ∈ plans) → (PlannedRoute.startExpansionAt plan first).Tracks
          (if plans.any RoutePlan.changed then .expanding else .finished .unchanged) first := by
      intro plan first hm
      constructor
      · intro hunchanged
        refine ⟨rfl, ?_⟩
        have hexpands : plan.expands = false := by
          unfold RoutePlan.expands
          rw [show plan.changed = false from hunchanged, Bool.false_and]
        intro phase
        unfold PlannedRoute.startExpansionAt
        rw [hexpands]
        cases phase <;> rfl
      · split
        · refine ⟨?_, ?_, rfl⟩
          · unfold PlannedRoute.startExpansionAt
            cases plan.expands <;> simp
          · unfold PlannedRoute.startExpansionAt
            dsimp only
            split
            · exact .start
            · exact .notCalled
        · rename_i hnone
          by_contra hchanged
          apply hnone
          rw [List.any_eq_true]
          exact ⟨plan, hm, Bool.eq_true_of_not_eq_false hchanged⟩
    generalize (if plans.any RoutePlan.changed then RoutePhase.expanding
      else .finished .unchanged) = phase at htracks ⊢
    induction plans generalizing held with
    | nil =>
      cases held with
      | nil => exact .nil
      | cons first held => cases hlength
    | cons plan plans ih =>
      cases held with
      | nil => cases hlength
      | cons first held =>
        rw [List.zipWith_cons_cons]
        apply List.Forall₂.cons
        · exact htracks plan first List.mem_cons_self
        · exact ih (Nat.succ.inj hlength) fun other first hm =>
            htracks other first (List.mem_cons_of_mem plan hm)

/-- The route that goes on has a call in its phase. -/
theorem Leads.proceed (h : planning.Leads plans held) {i : Nat} {route : PlannedRoute Symbol}
    (hroute : planning.routes[i]? = some route) {old new now : List Symbol}
    {call : UpdateCall Symbol} (hrunning : route.call planning.phase = .running old new)
    (hcall : call ≠ .notCalled)
    (htoward : ∀ after, UpdateCall.Toward after route.held (.running old new) →
      UpdateCall.Toward after now call) :
    (planning.setRoute i (route.proceed planning.phase now call)).Leads plans held := by
  have hplan : (route.proceed planning.phase now call).plan = route.plan := by
    unfold PlannedRoute.proceed
    split <;> rfl
  constructor
  · obtain ⟨hlt, heq⟩ := List.getElem?_eq_some_iff.mp hroute
    have hlt' : i < (planning.routes.map PlannedRoute.plan).length := by
      rw [List.length_map]
      exact hlt
    have hsame : (planning.routes.map PlannedRoute.plan)[i] = route.plan := by
      rw [List.getElem_map, heq]
    unfold setRoute
    dsimp only
    rw [List.map_set, hplan, ← hsame, List.set_getElem_self]
    exact h.plans
  · apply forall₂_set h.tracks hroute
    intro first htracks
    constructor
    · intro hunchanged
      rw [hplan] at hunchanged
      rw [(htracks.still hunchanged).notCalled] at hrunning
      cases hrunning
    · have hahead := htracks.ahead
      cases hphase : planning.phase with
      | expanding =>
        rw [hphase] at hrunning hahead
        have hexpansion : route.expansion = .running old new := hrunning
        obtain ⟨hcalled, hleads, hremoval⟩ := hahead
        rw [hexpansion] at hcalled hleads
        refine ⟨?_, htoward _ hleads, hremoval⟩
        show call = .notCalled ↔ route.plan.expands = false
        rw [← hcalled]
        simp [hcall]
      | trimming =>
        rw [hphase] at hrunning hahead
        have hremoval : route.removal = .running old new := hrunning
        obtain ⟨hcalled, hleads, -⟩ := hahead
        rw [hremoval] at hcalled hleads
        refine ⟨?_, htoward _ hleads, fun hnot => absurd hnot hcall⟩
        show call = .notCalled ↔ route.plan.trims = false
        rw [← hcalled]
        simp [hcall]
      | rollingBack => trivial
      | finished outcome =>
        rw [hphase] at hrunning
        cases hrunning

theorem Leads.map (h : planning.Leads plans held) {phase : RoutePhase}
    {start : PlannedRoute Symbol → PlannedRoute Symbol}
    (hplan : ∀ route, (start route).plan = route.plan)
    (hstill : ∀ first route, route.plan.changed = false → route.Still first →
      (start route).Still first)
    (hahead : ∀ route ∈ planning.routes, route.Ahead planning.phase →
      (start route).Ahead phase) :
    Leads plans held ⟨phase, planning.routes.map start⟩ := by
  constructor
  · dsimp only
    rw [List.map_map, ← h.plans]
    apply List.map_congr_left
    intro route _
    exact hplan route
  · dsimp only
    rw [List.forall₂_map_right_iff]
    have htracks := h.tracks
    clear h
    generalize planning.routes = routes at htracks hahead
    induction htracks with
    | nil => exact .nil
    | cons hfirst htail ih =>
      apply List.Forall₂.cons
      · constructor
        · intro hunchanged
          rw [hplan] at hunchanged
          exact hstill _ _ hunchanged (hfirst.still hunchanged)
        · exact hahead _ List.mem_cons_self hfirst.ahead
      · exact ih fun route hm => hahead route (List.mem_cons_of_mem _ hm)

theorem held_of_trimmed {route : PlannedRoute Symbol}
    (hahead : route.Ahead .trimming) (hreturned : route.removal.isRunning = false)
    (hraised : route.removal ≠ .returned .cancelled ∧ route.removal ≠ .returned .failed)
    (hchanged : route.plan.changed = true) : route.held = route.plan.target := by
  obtain ⟨hcalled, htoward, hkept⟩ := hahead
  cases hremoval : route.removal with
  | notCalled =>
    obtain ⟨hexpands, htarget⟩ :=
      RoutePlan.expands_of_not_trims hchanged (hcalled.mp hremoval)
    exact (hkept hremoval hexpands).trans htarget
  | running old new =>
    rw [hremoval] at hreturned
    cases hreturned
  | returned result =>
    cases result with
    | updated => exact htoward.updated hremoval
    | failed => exact absurd hremoval hraised.2
    | cancelled => exact absurd hremoval hraised.1

/-- When no expansion was raised, every route that expands holds both tuples. -/
theorem ahead_startRemoval {route : PlannedRoute Symbol} (hahead : route.Ahead .expanding)
    (hreturned : route.expansion.isRunning = false) (hraised : route.expansion.raised = false) :
    route.startRemoval.Ahead .trimming := by
  obtain ⟨hcalled, htoward, hremoval⟩ := hahead
  unfold PlannedRoute.startRemoval
  split
  · rename_i htrims
    refine ⟨?_, .start, nofun⟩
    rw [htrims]
    exact ⟨nofun, nofun⟩
  · rename_i htrims
    refine ⟨?_, ?_, ?_⟩
    · rw [hremoval]
      exact ⟨fun _ => Bool.eq_false_iff.mpr htrims, fun _ => rfl⟩
    · rw [hremoval]
      exact .notCalled
    · intro _ hexpands
      cases hexpansion : route.expansion with
      | notCalled =>
        rw [hcalled.mp hexpansion] at hexpands
        cases hexpands
      | running old new =>
        rw [hexpansion] at hreturned
        cases hreturned
      | returned result =>
        cases result with
        | updated => exact htoward.updated hexpansion
        | failed | cancelled =>
          rw [hexpansion] at hraised
          cases hraised

theorem Leads.finish (h : planning.Leads plans held) {outcome : RouteOutcome}
    (hahead : ∀ route ∈ planning.routes, route.Ahead planning.phase →
      route.Ahead (.finished outcome)) :
    Leads plans held ⟨.finished outcome, planning.routes⟩ := by
  have hmap := h.map (fun _ => rfl) (fun _ _ _ hstill => hstill) hahead
  rw [List.map_id'] at hmap
  exact hmap

theorem Leads.gather (h : planning.Leads plans held)
    (hreturned : ∀ route ∈ planning.routes, (route.call planning.phase).isRunning = false) :
    planning.gather.Leads plans held := by
  unfold RoutePlanning.gather
  cases hphase : planning.phase with
  | expanding =>
    rw [hphase] at hreturned
    dsimp only
    split
    · apply h.map
      · intro route
        unfold PlannedRoute.startRollback
        split <;> rfl
      · intro first route hunchanged hstill
        unfold PlannedRoute.startRollback RoutePlan.expands
        rw [hunchanged, Bool.false_and]
        exact hstill
      · intro route _ _
        trivial
    · rename_i hnone
      apply h.map
      · intro route
        unfold PlannedRoute.startRemoval
        split <;> rfl
      · intro first route hunchanged hstill
        unfold PlannedRoute.startRemoval RoutePlan.trims
        rw [hunchanged, Bool.false_and]
        exact hstill
      · intro route hm hahead
        rw [hphase] at hahead
        apply ahead_startRemoval hahead (hreturned route hm)
        by_contra hraised
        apply hnone
        rw [List.any_eq_true]
        exact ⟨route, hm, Bool.eq_true_of_not_eq_false hraised⟩
  | rollingBack =>
    dsimp only
    split
    · exact h.finish fun _ _ _ => trivial
    · exact h.finish fun _ _ _ => trivial
  | trimming =>
    rw [hphase] at hreturned
    dsimp only
    split
    · exact h.finish fun _ _ _ => trivial
    · rename_i hcancelled
      split
      · exact h.finish fun _ _ _ => trivial
      · rename_i hfailed
        apply h.finish
        intro route hm hahead
        rw [hphase] at hahead
        apply held_of_trimmed hahead (hreturned route hm)
        simp only [List.any_eq_true, decide_eq_true_eq, not_exists, not_and] at hcancelled hfailed
        exact ⟨hcancelled route hm, hfailed route hm⟩
  | finished outcome => exact h

theorem Leads.step (h : planning.Leads plans held) {event : RouteEvent}
    (hstep : Step planning event next) : next.Leads plans held := by
  cases hstep with
  | applied hroute hrunning =>
    exact h.proceed hroute hrunning nofun fun _ htoward => htoward.applied
  | withdrawn hroute hrunning =>
    exact h.proceed hroute hrunning nofun fun _ htoward => htoward.withdrawn
  | returned hroute hrunning hkept =>
    exact h.proceed hroute hrunning nofun fun _ htoward => htoward.returned hkept
  | gathered _ hreturned => exact h.gather hreturned

end RoutePlanning

/-! ## What is left -/

section Left
variable {plans : List (RoutePlan Symbol)} {held after : List (List Symbol)}
  {outcome : RouteOutcome}

theorem AddReadyRemove.length (h : AddReadyRemove plans held outcome after)
    (hlength : plans.length = held.length) : after.length = held.length := by
  obtain ⟨events, planning, hrun, -, rfl⟩ := h
  have hleads := hrun.preserves (fun h hstep => h.step hstep) (RoutePlanning.leads_startAt hlength)
  rw [List.length_map]
  exact hleads.tracks.length_eq.symm

/-- A route whose plan changes nothing keeps what it holds. When the call succeeds, the others hold
what their plans give them. -/
theorem AddReadyRemove.left (h : AddReadyRemove plans held outcome after)
    (hlength : plans.length = held.length) {i : Nat} {plan : RoutePlan Symbol}
    {first : List Symbol} (hplan : plans[i]? = some plan) (hfirst : held[i]? = some first) :
    ∃ now, after[i]? = some now ∧ (plan.changed = false → now = first) ∧
      (outcome.succeeded = true → plan.changed = true → now = plan.target) := by
  obtain ⟨events, planning, hrun, hphase, rfl⟩ := h
  have hleads := hrun.preserves (fun h hstep => h.step hstep) (RoutePlanning.leads_startAt hlength)
  obtain ⟨route, hroute, htracks⟩ : ∃ route, planning.routes[i]? = some route ∧
      route.Tracks planning.phase first := by
    obtain ⟨hlt, heq⟩ := List.getElem?_eq_some_iff.mp hfirst
    have hlt' : i < planning.routes.length := hleads.tracks.length_eq ▸ hlt
    refine ⟨planning.routes[i], List.getElem?_eq_getElem hlt', ?_⟩
    have htracks := hleads.tracks.get hlt hlt'
    rw [List.get_eq_getElem, List.get_eq_getElem, heq] at htracks
    exact htracks
  have hsame : route.plan = plan := by
    have hmap := hleads.plans
    rw [← hmap, List.getElem?_map, hroute] at hplan
    exact Option.some.inj hplan
  rw [hphase] at htracks
  refine ⟨route.held, ?_, ?_, ?_⟩
  · rw [List.getElem?_map, hroute]
    rfl
  · intro hunchanged
    exact (htracks.still (hsame ▸ hunchanged)).held
  · intro hsucceeded hchanged
    rw [← hsame] at hchanged ⊢
    cases outcome with
    | changed => exact htracks.ahead hchanged
    | unchanged =>
      have hunchanged : route.plan.changed = false := htracks.ahead
      rw [hunchanged] at hchanged
      cases hchanged
    | expansionFailed | expansionCancelled | removalIncomplete | removalCancelled =>
      cases hsucceeded

/-- What all routes had and are to have is held, and nothing else. -/
theorem AddReadyRemove.covers (h : AddReadyRemove plans (plans.map RoutePlan.current) outcome after)
    {symbol : Symbol} (hcurrent : ∃ plan ∈ plans, symbol ∈ plan.current)
    (htarget : ∃ plan ∈ plans, symbol ∈ plan.target) : ∃ now ∈ after, symbol ∈ now := by
  obtain ⟨events, planning, hrun, -, rfl⟩ := h
  rw [RoutePlanning.startAt_current] at hrun
  have hkeeps := RoutePlanning.keeps_run hrun
  have hroutes : ∀ plan ∈ plans, ∃ route ∈ planning.routes, route.plan = plan := by
    intro plan hm
    rw [← hkeeps.plans] at hm
    exact List.mem_map.mp hm
  obtain ⟨old, hold, hmold⟩ := hcurrent
  obtain ⟨new, hnew, hmnew⟩ := htarget
  rcases hkeeps.held with hkept | hgot
  · obtain ⟨route, hm, rfl⟩ := hroutes old hold
    exact ⟨route.held, List.mem_map_of_mem hm, hkept route hm symbol hmold⟩
  · obtain ⟨route, hm, rfl⟩ := hroutes new hnew
    exact ⟨route.held, List.mem_map_of_mem hm, (hgot route hm).1 symbol hmnew⟩

theorem AddReadyRemove.covered
    (h : AddReadyRemove plans (plans.map RoutePlan.current) outcome after)
    {now : List Symbol} (hnow : now ∈ after) {symbol : Symbol} (hm : symbol ∈ now) :
    ∃ plan ∈ plans, symbol ∈ plan.current ∨ symbol ∈ plan.target := by
  obtain ⟨events, planning, hrun, -, rfl⟩ := h
  rw [RoutePlanning.startAt_current] at hrun
  have hkeeps := RoutePlanning.keeps_run hrun
  obtain ⟨route, hroute, rfl⟩ := List.mem_map.mp hnow
  have hplan : route.plan ∈ plans := by
    rw [← hkeeps.plans]
    exact List.mem_map_of_mem hroute
  have hok := hkeeps.ok route hroute
  -- in every phase a route holds one of three tuples
  have hcases : route.held = route.plan.current ∨ route.held = route.plan.widest ∨
      route.held = route.plan.target := by
    cases hlast : planning.phase.last with
    | expanding =>
      rw [hlast] at hok
      exact hok.1.either.imp_right .inl
    | rollingBack =>
      rw [hlast] at hok
      rcases UpdateCall.Between.either hok with hheld | hheld
      · exact .inr (.inl hheld)
      · exact .inl hheld
    | trimming | finished outcome =>
      rw [hlast] at hok
      exact .inr hok.1.either
  refine ⟨route.plan, hplan, ?_⟩
  rcases hcases with hheld | hheld | hheld
  · exact .inl (hheld ▸ hm)
  · exact RoutePlan.mem_widest.mp (hheld ▸ hm)
  · exact .inr (hheld ▸ hm)

end Left

/-! ## The sources -/

/-- What an update of `SourceManager` reads and writes. -/
structure SourceManager (Symbol : Type) where
  /-- `_task is not None` -/
  running : Bool := false
  instruments : List Symbol := []
  sharder : TrafficSharder Symbol
  /-- The instruments of the public routes, of the market route and of the pollers. -/
  routes : List (List Symbol) := []
  market : List Symbol := []
  polled : List Symbol := []

/-- A call that holds the update lock. -/
structure SourceUpdate (Symbol : Type) where
  publicPlans : List (RoutePlan Symbol)
  /-- The plan of the market route and of the pollers. -/
  sharedPlan : Option (RoutePlan Symbol) := none
  /-- The sharder to be kept when the call succeeds. -/
  sharder : Option (TrafficSharder Symbol) := none
  /-- What the routes of the plans hold. -/
  parties : List (List Symbol)
  /-- The sources have not been stopped since. -/
  attached : Bool := true

def SourceUpdate.plans (update : SourceUpdate Symbol) : List (RoutePlan Symbol) :=
  update.publicPlans ++ update.sharedPlan.toList ++ update.sharedPlan.toList

namespace SourceManager

def start (sources : SourceManager Symbol) (instruments : List Symbol) :
    Except String (SourceManager Symbol) :=
  if sources.running then .error "sources already running"
  else do
    let (sharder, shards) ← sources.sharder.shards instruments
    return { running := true, instruments, sharder, routes := shards, market := instruments,
             polled := instruments }

def stop (sources : SourceManager Symbol) : SourceManager Symbol :=
  { sources with running := false, routes := [], market := [], polled := [] }

/-- `_public_route_plans` -/
def publicRoutePlans (sources : SourceManager Symbol) (shards : List (List Symbol)) :
    Except String (List (RoutePlan Symbol)) :=
  if sources.routes.length < shards.length then .error "KeyError"
  else .ok (sources.routes.zipWith RoutePlan.mk shards)

/-- `update_instruments`, up to `_add_ready_remove`. -/
def updateInstruments (sources : SourceManager Symbol) (instruments : List Symbol) :
    Except String (SourceUpdate Symbol) :=
  if ¬ sources.running then .error "sources are not running"
  else do
    let (sharder, shards) ← sources.sharder.copy.shards instruments
    let publicPlans ← sources.publicRoutePlans shards
    return { publicPlans
             sharedPlan := some ⟨sources.instruments, instruments⟩
             sharder := some sharder
             parties := sources.routes.take publicPlans.length ++ [sources.market, sources.polled] }

/-- `rebalance_public_routes`, up to `_add_ready_remove`. The rates are those of the last day. -/
def rebalancePublicRoutes (belowTrigger : Int → Int → Except String Bool)
    (sources : SourceManager Symbol) (messageRates : List (Symbol × Int)) :
    Except String (SourceManager Symbol × SourceUpdate Symbol) :=
  if ¬ sources.running then .error "sources are not available for route rebalance"
  else do
    let (committed, shards) ← sources.sharder.shards sources.instruments
    if sources.routes ≠ shards then
      let publicPlans ← sources.publicRoutePlans shards
      return ({ sources with sharder := committed },
        { publicPlans, parties := sources.routes.take publicPlans.length })
    else
      let fresh : TrafficSharder Symbol :=
        { count := sources.sharder.count, messageRates, count_pos := sources.sharder.count_pos }
      let (sharder, target) ← fresh.rebalance belowTrigger sources.instruments sources.routes
      let publicPlans ← sources.publicRoutePlans target
      return ({ sources with sharder := committed },
        { publicPlans, sharder := some sharder,
          parties := sources.routes.take publicPlans.length })

/-- The routes after `_add_ready_remove`. The routes of sources that were stopped are gone. -/
def holding (sources : SourceManager Symbol) (update : SourceUpdate Symbol)
    (after : List (List Symbol)) : SourceManager Symbol :=
  let count := update.publicPlans.length
  if update.attached then
    { sources with
      routes := after.take count ++ sources.routes.drop count
      market := after.getD count sources.market
      polled := after.getD (count + 1) sources.polled }
  else sources

/-- What a call that succeeds keeps. -/
def commit (sources : SourceManager Symbol) (update : SourceUpdate Symbol) :
    SourceManager Symbol :=
  { sources with
    instruments := (update.sharedPlan.map RoutePlan.target).getD sources.instruments
    sharder := update.sharder.getD sources.sharder }

end SourceManager

/-! ## What is collected -/

section Collected
variable {symbolCount shardCount : Nat} {sources next : SourceManager Symbol}
  {update : SourceUpdate Symbol} {members : List Symbol}

/-- The members of a decision: as many as there always are, and distinct. -/
structure Listed (symbolCount : Nat) (members : List Symbol) : Prop where
  nodup : members.Nodup
  length : members.length = symbolCount

namespace SourceManager

structure Sound (symbolCount shardCount : Nat) (sources : SourceManager Symbol) : Prop where
  sharder : ∃ returned, HeldSharder.Holds symbolCount shardCount ⟨sources.sharder, returned⟩
  listed : sources.running = true → Listed symbolCount sources.instruments
  routes : sources.running = true → sources.routes.length = shardCount

/-- The public routes together, the market route and the pollers have the members. -/
structure Collects (sources : SourceManager Symbol) (members : List Symbol) : Prop where
  routes : ∀ symbol, (∃ route ∈ sources.routes, symbol ∈ route) ↔ symbol ∈ members
  market : sources.market = members
  polled : sources.polled = members

/-- Where `_instruments` says that there is nothing to change, there is nothing to change. -/
def Agrees (sources : SourceManager Symbol) (members : List Symbol) : Prop :=
  sources.instruments = members → sources.market = members ∧ sources.polled = members

omit [LinearOrder Symbol] in
theorem Collects.agrees (h : sources.Collects members) : sources.Agrees members :=
  fun _ => ⟨h.market, h.polled⟩

end SourceManager

theorem shards_listed (hpos : 0 < shardCount) (hle : shardCount ≤ symbolCount)
    {sharder : TrafficSharder Symbol}
    (hholds : ∃ returned, HeldSharder.Holds symbolCount shardCount ⟨sharder, returned⟩)
    (hlisted : Listed symbolCount members) : ∃ after shards,
      sharder.shards members = .ok (after, shards) ∧
        HeldSharder.Holds symbolCount shardCount ⟨after, some (members, shards)⟩ := by
  obtain ⟨returned, hheld⟩ := hholds
  obtain ⟨after, shards, heq, hafter, -⟩ := TrafficSharder.shards_ok hpos hheld.count
    hlisted.nodup hlisted.length hle hheld.capped.1 hheld.capped.2
  exact ⟨after, shards, heq, hafter⟩

omit [LinearOrder Symbol] in
theorem ShardPartition.mem_iff {maxSymbols : Nat} {shards : List (List Symbol)}
    (h : ShardPartition members shardCount maxSymbols shards) (symbol : Symbol) :
    (∃ shard ∈ shards, symbol ∈ shard) ↔ symbol ∈ members := by
  rw [← List.mem_flatten]
  exact h.symbols.mem_iff

theorem SourceManager.start_collects (hpos : 0 < shardCount) (hle : shardCount ≤ symbolCount)
    (hsound : sources.Sound symbolCount shardCount) (hlisted : Listed symbolCount members)
    (hstart : sources.start members = .ok next) :
    next.Sound symbolCount shardCount ∧ next.running = true ∧ next.instruments = members ∧
      next.Collects members := by
  obtain ⟨after, shards, heq, hafter⟩ := shards_listed hpos hle hsound.sharder hlisted
  obtain ⟨-, -, hpartition, -, -⟩ := hafter.returned members shards rfl
  unfold start at hstart
  split at hstart
  · cases hstart
  · obtain ⟨⟨sharder, shards'⟩, hshards, hnext⟩ := exists_of_bind_ok hstart
    rw [heq] at hshards
    cases hshards
    cases hnext
    exact ⟨⟨⟨_, hafter⟩, fun _ => hlisted, fun _ => hpartition.length⟩, rfl, rfl,
      hpartition.mem_iff, rfl, rfl⟩

/-! ## An update -/

/-- The update leads the sources to other members. -/
structure SourceUpdate.Replaces (symbolCount shardCount : Nat) (update : SourceUpdate Symbol)
    (sources : SourceManager Symbol) (members : List Symbol) : Prop where
  parties : update.parties = sources.routes ++ [sources.market, sources.polled]
  publicPlans : ∃ maxSymbols shards, ShardPartition members shardCount maxSymbols shards ∧
    update.publicPlans = sources.routes.zipWith RoutePlan.mk shards
  sharedPlan : update.sharedPlan = some ⟨sources.instruments, members⟩

/-- What the update keeps when it succeeds. -/
structure SourceUpdate.Sound (symbolCount shardCount : Nat) (update : SourceUpdate Symbol) :
    Prop where
  sharder : ∀ sharder, update.sharder = some sharder →
    ∃ returned, HeldSharder.Holds symbolCount shardCount ⟨sharder, returned⟩
  listed : ∀ plan, update.sharedPlan = some plan → Listed symbolCount plan.target

omit [LinearOrder Symbol] in
theorem publicRoutePlans_eq {shards : List (List Symbol)} {plans : List (RoutePlan Symbol)}
    (hplans : sources.publicRoutePlans shards = .ok plans) :
    plans = sources.routes.zipWith RoutePlan.mk shards := by
  unfold SourceManager.publicRoutePlans at hplans
  split at hplans
  · cases hplans
  · exact (Except.ok.inj hplans).symm

theorem SourceManager.updateInstruments_replaces (hpos : 0 < shardCount)
    (hle : shardCount ≤ symbolCount) (hsound : sources.Sound symbolCount shardCount)
    (hlisted : Listed symbolCount members)
    (hupdate : sources.updateInstruments members = .ok update) :
    sources.running = true ∧ update.attached = true ∧
      update.Replaces symbolCount shardCount sources members ∧
      update.Sound symbolCount shardCount := by
  have hcopy : ∃ returned, HeldSharder.Holds symbolCount shardCount
      ⟨sources.sharder.copy, returned⟩ := by
    obtain ⟨returned, hheld⟩ := hsound.sharder
    exact ⟨returned, hheld.count, hheld.fresh, hheld.returned⟩
  obtain ⟨after, shards, heq, hafter⟩ := shards_listed hpos hle hcopy hlisted
  obtain ⟨-, -, hpartition, -, -⟩ := hafter.returned members shards rfl
  unfold updateInstruments at hupdate
  split at hupdate
  · cases hupdate
  · rename_i hrunning
    have hrunning := not_not.mp hrunning
    obtain ⟨⟨sharder, shards'⟩, hshards, hupdate⟩ := exists_of_bind_ok hupdate
    rw [heq] at hshards
    cases hshards
    obtain ⟨plans, hplans, hupdate⟩ := exists_of_bind_ok hupdate
    have hplansEq := publicRoutePlans_eq hplans
    have hlength : plans.length = sources.routes.length := by
      rw [hplansEq, List.length_zipWith, hpartition.length, hsound.routes hrunning, min_self]
    cases hupdate
    refine ⟨hrunning, rfl, ⟨?_, ⟨_, shards, hpartition, hplansEq⟩, rfl⟩, ?_, ?_⟩
    · dsimp only
      rw [hlength, List.take_length]
    · rintro _ ⟨⟩
      exact ⟨_, hafter⟩
    · rintro _ ⟨⟩
      exact hlisted

section Carried
variable {outcome : RouteOutcome} {after : List (List Symbol)}
  (h : update.Replaces symbolCount shardCount sources members)
  (hroutes : sources.routes.length = shardCount)
  (hrun : AddReadyRemove update.plans update.parties outcome after)
include h hroutes

namespace SourceUpdate.Replaces

omit [LinearOrder Symbol] in
theorem publicPlans_length : update.publicPlans.length = shardCount := by
  obtain ⟨maxSymbols, shards, hpartition, hplans⟩ := h.publicPlans
  rw [hplans, List.length_zipWith, hpartition.length, hroutes, min_self]

omit [LinearOrder Symbol] in
theorem plans_length : update.plans.length = update.parties.length := by
  unfold SourceUpdate.plans
  rw [h.sharedPlan, h.parties, List.length_append, List.length_append, List.length_append,
    h.publicPlans_length hroutes, hroutes]
  rfl

omit [LinearOrder Symbol] in
theorem market_first : update.parties[shardCount]? = some sources.market := by
  rw [h.parties, List.getElem?_append_right hroutes.le, hroutes, Nat.sub_self]
  rfl

omit [LinearOrder Symbol] in
theorem polled_first : update.parties[shardCount + 1]? = some sources.polled := by
  rw [h.parties, List.getElem?_append_right (by omega), hroutes, Nat.add_sub_cancel_left]
  rfl

include hrun

theorem after_length : after.length = shardCount + 2 := by
  rw [hrun.length (h.plans_length hroutes), h.parties, List.length_append, hroutes]
  rfl

/-- The market route, or the pollers. -/
theorem shared {i : Nat} {first : List Symbol} (hi : i = shardCount ∨ i = shardCount + 1)
    (hfirst : update.parties[i]? = some first) : ∃ now, after[i]? = some now ∧
      (sources.instruments = members → now = first) ∧
      (outcome.succeeded = true → sources.instruments ≠ members → now = members) := by
  have hplan : update.plans[i]? = some ⟨sources.instruments, members⟩ := by
    have hlength := h.publicPlans_length hroutes
    unfold SourceUpdate.plans
    rw [h.sharedPlan, List.append_assoc, List.getElem?_append_right (by omega), hlength]
    rcases hi with rfl | rfl
    · rw [Nat.sub_self]
      rfl
    · rw [Nat.add_sub_cancel_left]
      rfl
  obtain ⟨now, hnow, hkept, hmoved⟩ := hrun.left (h.plans_length hroutes) hplan hfirst
  refine ⟨now, hnow, fun heq => hkept ?_, fun hsucceeded hne => hmoved hsucceeded ?_⟩
  · exact decide_eq_false (not_not.mpr heq)
  · exact decide_eq_true hne

/-- The public routes after a call that has succeeded. -/
theorem take_after (hsucceeded : outcome.succeeded = true) : ∃ maxSymbols,
    ShardPartition members shardCount maxSymbols (after.take shardCount) := by
  obtain ⟨maxSymbols, shards, hpartition, hplans⟩ := h.publicPlans
  have heq : after.take shardCount = shards := by
    have hlength := h.after_length hroutes hrun
    apply List.ext_getElem?
    intro i
    by_cases hi : i < shardCount
    · have hroute : i < sources.routes.length := hroutes ▸ hi
      have hshard : i < shards.length := hpartition.length ▸ hi
      have hplan : update.plans[i]? = some ⟨sources.routes[i], shards[i]⟩ := by
        unfold SourceUpdate.plans
        have hpublic : i < update.publicPlans.length := by
          rw [h.publicPlans_length hroutes]
          exact hi
        rw [List.append_assoc, List.getElem?_append_left hpublic, hplans,
          List.getElem?_zipWith_eq_some]
        exact ⟨sources.routes[i], shards[i], List.getElem?_eq_getElem hroute,
          List.getElem?_eq_getElem hshard, rfl⟩
      have hfirst : update.parties[i]? = some sources.routes[i] := by
        rw [h.parties, List.getElem?_append_left hroute]
        exact List.getElem?_eq_getElem hroute
      obtain ⟨now, hnow, hkept, hmoved⟩ := hrun.left (h.plans_length hroutes) hplan hfirst
      rw [List.getElem?_take_of_lt hi, hnow, List.getElem?_eq_getElem hshard]
      by_cases hchanged : sources.routes[i] = shards[i]
      · rw [hkept (decide_eq_false (not_not.mpr hchanged)), hchanged]
      · rw [hmoved hsucceeded (decide_eq_true hchanged)]
    · rw [List.getElem?_eq_none (by rw [List.length_take]; omega),
        List.getElem?_eq_none (by rw [hpartition.length]; omega)]
  exact ⟨maxSymbols, heq ▸ hpartition⟩

theorem holding_eq (hattached : update.attached = true) : ∃ market polled,
    sources.holding update after = { sources with
      routes := after.take shardCount
      market
      polled } ∧
    (sources.instruments = members → market = sources.market ∧ polled = sources.polled) ∧
    (outcome.succeeded = true → sources.instruments ≠ members →
      market = members ∧ polled = members) := by
  obtain ⟨market, hmarket, hmarketKept, hmarketMoved⟩ :=
    h.shared hroutes hrun (.inl rfl) (h.market_first hroutes)
  obtain ⟨polled, hpolled, hpolledKept, hpolledMoved⟩ :=
    h.shared hroutes hrun (.inr rfl) (h.polled_first hroutes)
  refine ⟨market, polled, ?_, fun heq => ⟨hmarketKept heq, hpolledKept heq⟩,
    fun hsucceeded hne => ⟨hmarketMoved hsucceeded hne, hpolledMoved hsucceeded hne⟩⟩
  unfold SourceManager.holding
  dsimp only
  rw [if_pos hattached, h.publicPlans_length hroutes, List.drop_of_length_le hroutes.le,
    List.append_nil, List.getD_eq_getElem?_getD, List.getD_eq_getElem?_getD, hmarket, hpolled]
  rfl

/-- Whatever its outcome, the update leaves as many routes, and what needed no change. -/
theorem holding_sound (hattached : update.attached = true)
    (hsound : sources.Sound symbolCount shardCount) (hagrees : sources.Agrees members) :
    (sources.holding update after).Sound symbolCount shardCount ∧
      (sources.holding update after).running = sources.running ∧
      (sources.holding update after).instruments = sources.instruments ∧
      (sources.holding update after).Agrees members := by
  obtain ⟨market, polled, heq, hkept, -⟩ := h.holding_eq hroutes hrun hattached
  rw [heq]
  refine ⟨⟨hsound.sharder, hsound.listed, fun _ => ?_⟩, rfl, rfl, fun hsame => ?_⟩
  · dsimp only
    rw [List.length_take, h.after_length hroutes hrun]
    omega
  · obtain ⟨hmarket, hpolled⟩ := hkept hsame
    rw [hmarket, hpolled]
    exact hagrees hsame

/-- After an update that has succeeded, the sources collect the new members. -/
theorem collects (hattached : update.attached = true) (hagrees : sources.Agrees members)
    (hsucceeded : outcome.succeeded = true) :
    ((sources.holding update after).commit update).instruments = members ∧
      ((sources.holding update after).commit update).Collects members := by
  obtain ⟨market, polled, heq, hkept, hmoved⟩ := h.holding_eq hroutes hrun hattached
  obtain ⟨maxSymbols, hpartition⟩ := h.take_after hroutes hrun hsucceeded
  have hshared : market = members ∧ polled = members := by
    by_cases hsame : sources.instruments = members
    · obtain ⟨hmarket, hpolled⟩ := hkept hsame
      rw [hmarket, hpolled]
      exact hagrees hsame
    · exact hmoved hsucceeded hsame
  unfold SourceManager.commit
  rw [heq, h.sharedPlan]
  exact ⟨rfl, hpartition.mem_iff, hshared.1, hshared.2⟩

end SourceUpdate.Replaces

end Carried

theorem SourceManager.commit_sound (hsound : sources.Sound symbolCount shardCount)
    (hupdate : update.Sound symbolCount shardCount) :
    (sources.commit update).Sound symbolCount shardCount ∧
      (sources.commit update).running = sources.running := by
  refine ⟨⟨?_, fun hrunning => ?_, hsound.routes⟩, rfl⟩
  · unfold commit
    dsimp only
    cases hsharder : update.sharder with
    | none => exact hsound.sharder
    | some sharder => exact hupdate.sharder sharder hsharder
  · unfold commit
    dsimp only
    cases hplan : update.sharedPlan with
    | none => exact hsound.listed hrunning
    | some plan => exact hupdate.listed plan hplan

/-! ## A rebalance -/

/-- The update moves symbols between the public routes. -/
structure SourceUpdate.Moves (shardCount : Nat) (update : SourceUpdate Symbol)
    (sources : SourceManager Symbol) : Prop where
  parties : update.parties = sources.routes
  publicPlans : ∃ maxSymbols shards,
    ShardPartition sources.instruments shardCount maxSymbols shards ∧
      update.publicPlans = sources.routes.zipWith RoutePlan.mk shards
  sharedPlan : update.sharedPlan = none

theorem SourceManager.rebalancePublicRoutes_moves (hpos : 0 < shardCount)
    (hle : shardCount ≤ symbolCount) (hsound : sources.Sound symbolCount shardCount)
    {belowTrigger : Int → Int → Except String Bool} {messageRates : List (Symbol × Int)}
    (hrebalance : sources.rebalancePublicRoutes belowTrigger messageRates = .ok (next, update)) :
    sources.running = true ∧ update.attached = true ∧ next.Sound symbolCount shardCount ∧
      next = { sources with sharder := next.sharder } ∧ update.Moves shardCount next ∧
      update.Sound symbolCount shardCount := by
  unfold rebalancePublicRoutes at hrebalance
  split at hrebalance
  · cases hrebalance
  · rename_i hrunning
    have hrunning := not_not.mp hrunning
    have hroutes := hsound.routes hrunning
    obtain ⟨committed, shards, heq, hcommitted⟩ :=
      shards_listed hpos hle hsound.sharder (hsound.listed hrunning)
    obtain ⟨-, -, hpartition, -, -⟩ := hcommitted.returned _ shards rfl
    have hnext : { sources with sharder := committed }.Sound symbolCount shardCount :=
      ⟨⟨_, hcommitted⟩, hsound.listed, hsound.routes⟩
    obtain ⟨⟨sharder, shards'⟩, hshards, hrebalance⟩ := exists_of_bind_ok hrebalance
    rw [heq] at hshards
    cases hshards
    dsimp only at hrebalance
    -- the plans are made of one shard for each route
    have hmoves : ∀ {plans : List (RoutePlan Symbol)} {maxSymbols : Nat}
        {target : List (List Symbol)} {sharder : Option (TrafficSharder Symbol)},
        sources.publicRoutePlans target = .ok plans →
        ShardPartition sources.instruments shardCount maxSymbols target →
        SourceUpdate.Moves shardCount
          { publicPlans := plans, sharder, parties := sources.routes.take plans.length }
          { sources with sharder := committed } := by
      intro plans maxSymbols target sharder hplans htarget
      have hplansEq := publicRoutePlans_eq hplans
      refine ⟨?_, ⟨maxSymbols, target, htarget, hplansEq⟩, rfl⟩
      have hlength : plans.length = sources.routes.length := by
        rw [hplansEq, List.length_zipWith, htarget.length, hroutes, min_self]
      dsimp only
      rw [hlength, List.take_length]
    split at hrebalance
    · obtain ⟨plans, hplans, hrebalance⟩ := exists_of_bind_ok hrebalance
      cases hrebalance
      refine ⟨hrunning, rfl, hnext, rfl, hmoves hplans hpartition, ?_, ?_⟩
      · rintro _ ⟨⟩
      · rintro _ ⟨⟩
    · rename_i hsame
      have hsame := not_not.mp hsame
      obtain ⟨⟨moved, target⟩, hmoved, hrebalance⟩ := exists_of_bind_ok hrebalance
      obtain ⟨plans, hplans, hrebalance⟩ := exists_of_bind_ok hrebalance
      cases hrebalance
      have hcount : TrafficSharder.count
          ⟨sources.sharder.count, messageRates, [], sources.sharder.count_pos⟩ = shardCount := by
        obtain ⟨returned, hheld⟩ := hsound.sharder
        exact hheld.count
      rw [hsame] at hmoved
      rcases TrafficSharder.rebalance_returned hcount hle hcommitted with
        ⟨error, -, hfail⟩ | ⟨after, target', hok, -, hafter⟩
      · rw [hmoved] at hfail
        cases hfail
      · rw [hmoved] at hok
        cases hok
        obtain ⟨-, -, htarget, -, -⟩ := hafter.returned _ target rfl
        refine ⟨hrunning, rfl, hnext, rfl, hmoves hplans htarget, ?_, ?_⟩
        · rintro _ ⟨⟩
          exact ⟨_, hafter⟩
        · rintro _ ⟨⟩

omit [LinearOrder Symbol] in
theorem SourceManager.holding_running (sources : SourceManager Symbol)
    (update : SourceUpdate Symbol) (after : List (List Symbol)) :
    (sources.holding update after).running = sources.running := by
  unfold holding
  dsimp only
  split <;> rfl

omit [LinearOrder Symbol] in
/-- The routes of a call that outlives its sources are gone. -/
theorem SourceManager.holding_detached (h : update.attached = false) {after : List (List Symbol)} :
    sources.holding update after = sources := by
  unfold holding
  dsimp only
  rw [h]
  rfl

theorem SourceManager.rebalance_running {belowTrigger : Int → Int → Except String Bool}
    {messageRates : List (Symbol × Int)}
    (h : sources.rebalancePublicRoutes belowTrigger messageRates = .ok (next, update)) :
    next.running = sources.running := by
  unfold rebalancePublicRoutes at h
  split at h
  · cases h
  · obtain ⟨⟨committed, shards⟩, -, h⟩ := exists_of_bind_ok h
    dsimp only at h
    split at h
    · obtain ⟨plans, -, h⟩ := exists_of_bind_ok h
      cases h
      rfl
    · obtain ⟨moved, -, h⟩ := exists_of_bind_ok h
      obtain ⟨plans, -, h⟩ := exists_of_bind_ok h
      cases h
      rfl

section Moved
variable {outcome : RouteOutcome} {after : List (List Symbol)}
  (h : update.Moves shardCount sources) (hroutes : sources.routes.length = shardCount)
  (hrun : AddReadyRemove update.plans update.parties outcome after)
include h hroutes hrun

namespace SourceUpdate.Moves

theorem holding_eq (hattached : update.attached = true) :
    sources.holding update after = { sources with routes := after } ∧
      after.length = shardCount := by
  obtain ⟨maxSymbols, shards, hpartition, hplans⟩ := h.publicPlans
  have hcount : update.publicPlans.length = shardCount := by
    rw [hplans, List.length_zipWith, hpartition.length, hroutes, min_self]
  have hlength : update.plans.length = update.parties.length := by
    unfold SourceUpdate.plans
    rw [h.sharedPlan, h.parties, List.length_append, List.length_append, hcount, hroutes]
    rfl
  have hafter : after.length = shardCount := by
    rw [hrun.length hlength, h.parties, hroutes]
  refine ⟨?_, hafter⟩
  unfold SourceManager.holding
  dsimp only
  rw [if_pos hattached, hcount, List.drop_of_length_le hroutes.le, List.append_nil,
    List.take_of_length_le hafter.le, List.getD_eq_default _ _ hafter.le,
    List.getD_eq_default _ _ (by omega)]

/-- Whatever its outcome, a rebalance leaves what the sources collect. -/
theorem collects (hattached : update.attached = true) {members : List Symbol}
    (hinstruments : sources.instruments = members) (hcollects : sources.Collects members) :
    (sources.holding update after).Collects members := by
  obtain ⟨maxSymbols, shards, hpartition, hplans⟩ := h.publicPlans
  obtain ⟨heq, hafter⟩ := h.holding_eq hroutes hrun hattached
  have hplansEq : update.plans = update.publicPlans := by
    unfold SourceUpdate.plans
    rw [h.sharedPlan]
    simp
  have hlengths : sources.routes.length ≤ shards.length := by
    rw [hroutes, hpartition.length]
  have hlengths' : shards.length ≤ sources.routes.length := by
    rw [hroutes, hpartition.length]
  have hcurrent : update.publicPlans.map RoutePlan.current = sources.routes := by
    rw [hplans, ← List.map_uncurry_zip_eq_zipWith, List.map_map]
    exact List.map_fst_zip hlengths
  have htarget : update.publicPlans.map RoutePlan.target = shards := by
    rw [hplans, ← List.map_uncurry_zip_eq_zipWith, List.map_map]
    exact List.map_snd_zip hlengths'
  rw [hplansEq, h.parties, ← hcurrent] at hrun
  rw [heq]
  refine ⟨fun symbol => ⟨?_, ?_⟩, hcollects.market, hcollects.polled⟩
  · rintro ⟨now, hnow, hm⟩
    obtain ⟨plan, hplan, hin⟩ := hrun.covered hnow hm
    rcases hin with hin | hin
    · apply (hcollects.routes symbol).mp
      refine ⟨plan.current, ?_, hin⟩
      rw [← hcurrent]
      exact List.mem_map_of_mem hplan
    · rw [← hinstruments]
      apply (hpartition.mem_iff symbol).mp
      refine ⟨plan.target, ?_, hin⟩
      rw [← htarget]
      exact List.mem_map_of_mem hplan
  · intro hm
    apply hrun.covers
    · obtain ⟨route, hroute, hin⟩ := (hcollects.routes symbol).mpr hm
      rw [← hcurrent] at hroute
      obtain ⟨plan, hplan, rfl⟩ := List.mem_map.mp hroute
      exact ⟨plan, hplan, hin⟩
    · rw [← hinstruments] at hm
      obtain ⟨shard, hshard, hin⟩ := (hpartition.mem_iff symbol).mpr hm
      rw [← htarget] at hshard
      obtain ⟨plan, hplan, rfl⟩ := List.mem_map.mp hshard
      exact ⟨plan, hplan, hin⟩

end SourceUpdate.Moves

end Moved

end Collected

end MiryFormal
