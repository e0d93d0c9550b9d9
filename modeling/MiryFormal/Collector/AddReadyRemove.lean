import Mathlib.Data.List.Dedup
import Mathlib.Data.List.Sort
import MiryFormal.Shared.Runs

/-!
# Add, ready, remove

`_add_ready_remove` moves symbols between routes. All routes are first expanded to what they
had and what they get. Only then is any of them trimmed, and when an expansion fails all are
rolled back. The updates of a phase run side by side: each holds its old or its new tuple while
it runs, and one that fails may leave either.
-/

namespace MiryFormal

set_option autoImplicit false

/-- The tuple a route has, and the one it gets. -/
structure RoutePlan (Symbol : Type) where
  current : List Symbol
  target : List Symbol
  deriving DecidableEq

inductive UpdateResult where
  | updated
  | failed
  | cancelled
  deriving DecidableEq

/-- The update call of one phase. -/
inductive UpdateCall (Symbol : Type) where
  | notCalled
  | running (old new : List Symbol)
  | returned (result : UpdateResult)
  deriving DecidableEq

/-- What `_add_ready_remove` returns or raises. -/
inductive RouteOutcome where
  | unchanged
  | changed
  | expansionFailed
  | expansionCancelled
  | removalIncomplete
  | removalCancelled
  deriving DecidableEq

inductive RoutePhase where
  | expanding
  | rollingBack
  | trimming
  | finished (outcome : RouteOutcome)
  deriving DecidableEq

/-- A route, what it holds, and its calls in the three phases. -/
structure PlannedRoute (Symbol : Type) where
  plan : RoutePlan Symbol
  held : List Symbol
  expansion : UpdateCall Symbol := .notCalled
  rollback : UpdateCall Symbol := .notCalled
  removal : UpdateCall Symbol := .notCalled
  deriving DecidableEq

structure RoutePlanning (Symbol : Type) where
  phase : RoutePhase
  routes : List (PlannedRoute Symbol)
  deriving DecidableEq

inductive RouteEvent where
  /-- The running update of a route takes effect. -/
  | applied (route : Nat)
  /-- It is taken back. -/
  | withdrawn (route : Nat)
  /-- It returns or raises. `kept` tells whether one that raises leaves the new tuple. -/
  | returned (route : Nat) (result : UpdateResult) (kept : Bool)
  /-- All calls of the phase have returned. -/
  | gathered
  deriving DecidableEq

variable {Symbol : Type} [LinearOrder Symbol]

namespace RoutePlan

/-- `tuple(sorted(set(current) | set(target)))` -/
def expanded (plan : RoutePlan Symbol) : List Symbol :=
  (plan.current ++ plan.target).dedup.insertionSort (· ≤ ·)

def changed (plan : RoutePlan Symbol) : Bool := plan.current ≠ plan.target

def expands (plan : RoutePlan Symbol) : Bool := plan.changed && plan.expanded ≠ plan.current

def trims (plan : RoutePlan Symbol) : Bool := plan.changed && plan.target ≠ plan.expanded

theorem mem_expanded {plan : RoutePlan Symbol} {symbol : Symbol} :
    symbol ∈ plan.expanded ↔ symbol ∈ plan.current ∨ symbol ∈ plan.target := by
  unfold expanded
  rw [List.mem_insertionSort, List.mem_dedup, List.mem_append]

/-- What the route holds when its expansion has succeeded, or when it has none. -/
def widest (plan : RoutePlan Symbol) : List Symbol :=
  if plan.expands then plan.expanded else plan.current

theorem mem_widest {plan : RoutePlan Symbol} {symbol : Symbol} :
    symbol ∈ plan.widest ↔ symbol ∈ plan.current ∨ symbol ∈ plan.target := by
  unfold widest
  split
  · exact mem_expanded
  · rename_i hexpands
    by_cases hchanged : plan.current = plan.target
    · rw [hchanged, or_self]
    · have heq : plan.expanded = plan.current := by
        by_contra hne
        apply hexpands
        unfold expands changed
        simp [hchanged, hne]
      rw [← mem_expanded, heq]

end RoutePlan

def UpdateCall.isRunning : UpdateCall Symbol → Bool
  | running _ _ => true
  | _ => false

def UpdateCall.raised : UpdateCall Symbol → Bool
  | returned .failed | returned .cancelled => true
  | _ => false

namespace PlannedRoute

/-- The call of the route in a phase. -/
def call (route : PlannedRoute Symbol) : RoutePhase → UpdateCall Symbol
  | .expanding => route.expansion
  | .rollingBack => route.rollback
  | .trimming => route.removal
  | .finished _ => .notCalled

/-- The route with a new tuple, and a new state of its call in a phase. -/
def proceed (route : PlannedRoute Symbol) (phase : RoutePhase) (held : List Symbol)
    (call : UpdateCall Symbol) : PlannedRoute Symbol :=
  match phase with
  | .expanding => { route with held, expansion := call }
  | .rollingBack => { route with held, rollback := call }
  | .trimming => { route with held, removal := call }
  | .finished _ => route

def startExpansion (plan : RoutePlan Symbol) : PlannedRoute Symbol where
  plan
  held := plan.current
  expansion := if plan.expands then .running plan.current plan.expanded else .notCalled

def startRollback (route : PlannedRoute Symbol) : PlannedRoute Symbol :=
  if route.plan.expands then { route with rollback := .running route.held route.plan.current }
  else route

def startRemoval (route : PlannedRoute Symbol) : PlannedRoute Symbol :=
  if route.plan.trims then { route with removal := .running route.held route.plan.target }
  else route

end PlannedRoute

namespace RoutePlanning

def start (plans : List (RoutePlan Symbol)) : RoutePlanning Symbol where
  phase := if plans.any RoutePlan.changed then .expanding else .finished .unchanged
  routes := plans.map PlannedRoute.startExpansion

/-- What follows when all calls of the phase have returned. -/
def gather (planning : RoutePlanning Symbol) : RoutePlanning Symbol :=
  match planning.phase with
  | .expanding =>
      if planning.routes.any fun route => route.expansion.raised then
        ⟨.rollingBack, planning.routes.map PlannedRoute.startRollback⟩
      else ⟨.trimming, planning.routes.map PlannedRoute.startRemoval⟩
  | .rollingBack =>
      if planning.routes.any fun route => route.expansion = .returned .cancelled then
        ⟨.finished .expansionCancelled, planning.routes⟩
      else ⟨.finished .expansionFailed, planning.routes⟩
  | .trimming =>
      if planning.routes.any fun route => route.removal = .returned .cancelled then
        ⟨.finished .removalCancelled, planning.routes⟩
      else if planning.routes.any fun route => route.removal = .returned .failed then
        ⟨.finished .removalIncomplete, planning.routes⟩
      else ⟨.finished .changed, planning.routes⟩
  | .finished _ => planning

def setRoute (planning : RoutePlanning Symbol) (i : Nat) (route : PlannedRoute Symbol) :
    RoutePlanning Symbol :=
  { planning with routes := planning.routes.set i route }

inductive Step : RoutePlanning Symbol → RouteEvent → RoutePlanning Symbol → Prop where
  | applied {planning : RoutePlanning Symbol} {i : Nat} {route : PlannedRoute Symbol}
      {old new : List Symbol} (hroute : planning.routes[i]? = some route)
      (hrunning : route.call planning.phase = .running old new) :
      Step planning (.applied i)
        (planning.setRoute i (route.proceed planning.phase new (.running old new)))
  | withdrawn {planning : RoutePlanning Symbol} {i : Nat} {route : PlannedRoute Symbol}
      {old new : List Symbol} (hroute : planning.routes[i]? = some route)
      (hrunning : route.call planning.phase = .running old new) :
      Step planning (.withdrawn i)
        (planning.setRoute i (route.proceed planning.phase old (.running old new)))
  | returned {planning : RoutePlanning Symbol} {i : Nat} {route : PlannedRoute Symbol}
      {old new : List Symbol} {result : UpdateResult} {kept : Bool}
      (hroute : planning.routes[i]? = some route)
      (hrunning : route.call planning.phase = .running old new)
      (hkept : result = .updated → kept = true) :
      Step planning (.returned i result kept)
        (planning.setRoute i
          (route.proceed planning.phase (if kept then new else old) (.returned result)))
  | gathered {planning : RoutePlanning Symbol}
      (hunfinished : ∀ outcome, planning.phase ≠ .finished outcome)
      (hreturned : ∀ route ∈ planning.routes, (route.call planning.phase).isRunning = false) :
      Step planning .gathered planning.gather

end RoutePlanning

/-! ## What a route holds in a phase -/

/-- A call that leads from one tuple to another, or has not been made. -/
structure UpdateCall.Between (before after held : List Symbol) (call : UpdateCall Symbol) :
    Prop where
  either : held = before ∨ held = after
  running : ∀ old new, call = running old new → (old = before ∨ old = after) ∧ new = after
  updated : call = returned .updated → held = after

namespace UpdateCall.Between
variable {before after held old new : List Symbol}
omit [LinearOrder Symbol]

theorem notCalled (h : held = before ∨ held = after) :
    Between before after held UpdateCall.notCalled := by
  refine ⟨h, ?_, ?_⟩
  · intro old new hrunning
    cases hrunning
  · intro hupdated
    cases hupdated

theorem start (h : held = before ∨ held = after) :
    Between before after held (.running held after) := by
  refine ⟨h, ?_, ?_⟩
  · intro old new hrunning
    cases hrunning
    exact ⟨h, rfl⟩
  · intro hupdated
    cases hupdated

theorem applied (h : Between before after held (.running old new)) :
    Between before after new (.running old new) := by
  have hnew := (h.running old new rfl).2
  exact ⟨.inr hnew, h.running, fun _ => hnew⟩

theorem withdrawn (h : Between before after held (.running old new)) :
    Between before after old (.running old new) := by
  refine ⟨(h.running old new rfl).1, h.running, ?_⟩
  intro hupdated
  cases hupdated

theorem returned (h : Between before after held (.running old new)) {result : UpdateResult}
    {kept : Bool} (hkept : result = .updated → kept = true) :
    Between before after (if kept then new else old) (.returned result) := by
  obtain ⟨hold, hnew⟩ := h.running old new rfl
  refine ⟨?_, ?_, ?_⟩
  · split
    · exact .inr hnew
    · exact hold
  · intro old new hrunning
    cases hrunning
  · intro hupdated
    cases hupdated
    rw [hkept rfl]
    exact hnew

end UpdateCall.Between

/-- The phase whose calls were the last. -/
def RoutePhase.last : RoutePhase → RoutePhase
  | finished .unchanged => expanding
  | finished .expansionFailed | finished .expansionCancelled => rollingBack
  | finished _ => trimming
  | phase => phase

/-- What holds of a route in a phase, and after it. -/
def PlannedRoute.Ok (route : PlannedRoute Symbol) : RoutePhase → Prop
  | .expanding =>
      route.expansion.Between route.plan.current route.plan.widest route.held ∧
        route.rollback = .notCalled ∧ route.removal = .notCalled
  | .rollingBack => route.rollback.Between route.plan.widest route.plan.current route.held
  | _ =>
      route.removal.Between route.plan.widest route.plan.target route.held ∧
        (route.plan.expands → route.expansion = .returned .updated)

namespace RoutePlanning

structure Keeps (plans : List (RoutePlan Symbol)) (planning : RoutePlanning Symbol) : Prop where
  plans : planning.routes.map PlannedRoute.plan = plans
  called : ∀ route ∈ planning.routes, route.expansion = .notCalled ↔ route.plan.expands = false
  ok : ∀ route ∈ planning.routes, route.Ok planning.phase.last

variable {plans : List (RoutePlan Symbol)} {planning next : RoutePlanning Symbol}

theorem keeps_start (plans : List (RoutePlan Symbol)) : Keeps plans (start plans) := by
  have hphase : (start plans).phase.last = .expanding := by
    unfold start
    dsimp only
    split <;> rfl
  constructor
  · unfold start
    rw [List.map_map]
    exact List.map_id' _
  · intro route hm
    obtain ⟨plan, -, rfl⟩ := List.mem_map.mp hm
    unfold PlannedRoute.startExpansion
    cases plan.expands <;> simp
  · intro route hm
    obtain ⟨plan, -, rfl⟩ := List.mem_map.mp hm
    rw [hphase]
    refine ⟨?_, rfl, rfl⟩
    unfold PlannedRoute.startExpansion
    dsimp only
    split
    · rename_i hexpands
      have hwidest : plan.widest = plan.expanded := if_pos hexpands
      rw [hwidest]
      exact .start (.inl rfl)
    · exact .notCalled (.inl rfl)

/-- A route goes on within a phase. -/
theorem Keeps.setRoute (h : planning.Keeps plans) {i : Nat} {route next : PlannedRoute Symbol}
    (hroute : planning.routes[i]? = some route) (hplan : next.plan = route.plan)
    (hcalled : next.expansion = .notCalled ↔ route.expansion = .notCalled)
    (hok : next.Ok planning.phase.last) : (planning.setRoute i next).Keeps plans := by
  have hm := List.mem_of_getElem? hroute
  constructor
  · unfold RoutePlanning.setRoute
    obtain ⟨hlt, heq⟩ := List.getElem?_eq_some_iff.mp hroute
    have hplans : i < (planning.routes.map PlannedRoute.plan).length := by
      rw [List.length_map]
      exact hlt
    have hsame : (planning.routes.map PlannedRoute.plan)[i] = route.plan := by
      rw [List.getElem_map, heq]
    dsimp only
    rw [List.map_set, hplan, ← hsame, List.set_getElem_self]
    exact h.plans
  · intro other hother
    rcases List.mem_or_eq_of_mem_set hother with hother | rfl
    · exact h.called other hother
    · rw [hcalled, hplan]
      exact h.called route hm
  · intro other hother
    rcases List.mem_or_eq_of_mem_set hother with hother | rfl
    · exact h.ok other hother
    · exact hok

/-- The route that goes on has a call in its phase, and what the call does keeps it between. -/
theorem Keeps.proceed (h : planning.Keeps plans) {i : Nat} {route : PlannedRoute Symbol}
    (hroute : planning.routes[i]? = some route) {old new held : List Symbol}
    {call : UpdateCall Symbol} (hrunning : route.call planning.phase = .running old new)
    (hcall : call ≠ .notCalled)
    (hbetween : ∀ before after,
      UpdateCall.Between before after route.held (.running old new) →
        UpdateCall.Between before after held call) :
    (planning.setRoute i (route.proceed planning.phase held call)).Keeps plans := by
  have hok := h.ok route (List.mem_of_getElem? hroute)
  cases hphase : planning.phase with
  | expanding =>
    rw [hphase] at hrunning hok
    have hexpansion : route.expansion = .running old new := hrunning
    apply h.setRoute hroute
    · rfl
    · unfold PlannedRoute.proceed
      dsimp only
      rw [hexpansion]
      simp [hcall]
    · rw [hphase]
      obtain ⟨hold, hrollback, hremoval⟩ := hok
      rw [hexpansion] at hold
      exact ⟨hbetween _ _ hold, hrollback, hremoval⟩
  | rollingBack =>
    rw [hphase] at hrunning hok
    have hrollback : route.rollback = .running old new := hrunning
    apply h.setRoute hroute
    · rfl
    · exact Iff.rfl
    · rw [hphase]
      have hold : route.rollback.Between route.plan.widest route.plan.current route.held := hok
      rw [hrollback] at hold
      exact hbetween _ _ hold
  | trimming =>
    rw [hphase] at hrunning hok
    have hremoval : route.removal = .running old new := hrunning
    apply h.setRoute hroute
    · rfl
    · exact Iff.rfl
    · rw [hphase]
      obtain ⟨hold, hexpanded⟩ := hok
      rw [hremoval] at hold
      exact ⟨hbetween _ _ hold, hexpanded⟩
  | finished outcome =>
    rw [hphase] at hrunning
    cases hrunning

/-- When nothing was raised, every route has all it had and all it gets. -/
theorem held_widest {route : PlannedRoute Symbol} (hok : route.Ok .expanding)
    (hcalled : route.expansion = .notCalled ↔ route.plan.expands = false)
    (hreturned : route.expansion.isRunning = false) (hraised : route.expansion.raised = false) :
    route.held = route.plan.widest ∧
      (route.plan.expands → route.expansion = .returned .updated) := by
  obtain ⟨hbetween, -, -⟩ := hok
  cases hexpansion : route.expansion with
  | notCalled =>
    have hexpands := hcalled.mp hexpansion
    have hwidest : route.plan.widest = route.plan.current := by
      unfold RoutePlan.widest
      rw [hexpands]
      rfl
    refine ⟨?_, ?_⟩
    · rcases hbetween.either with hheld | hheld
      · rw [hheld, hwidest]
      · exact hheld
    · intro htrue
      rw [hexpands] at htrue
      cases htrue
  | running old new =>
    rw [hexpansion] at hreturned
    cases hreturned
  | returned result =>
    cases result with
    | updated => exact ⟨hbetween.updated hexpansion, fun _ => rfl⟩
    | failed | cancelled =>
      rw [hexpansion] at hraised
      cases hraised

theorem Keeps.map (h : planning.Keeps plans) {phase : RoutePhase}
    {start : PlannedRoute Symbol → PlannedRoute Symbol}
    (hplan : ∀ route, (start route).plan = route.plan)
    (hexpansion : ∀ route, (start route).expansion = route.expansion)
    (hok : ∀ route ∈ planning.routes, (start route).Ok phase.last) :
    Keeps plans ⟨phase, planning.routes.map start⟩ := by
  constructor
  · dsimp only
    rw [List.map_map, ← h.plans]
    apply List.map_congr_left
    intro route _
    exact hplan route
  · intro route hm
    obtain ⟨before, hbefore, rfl⟩ := List.mem_map.mp hm
    rw [hplan, hexpansion]
    exact h.called before hbefore
  · intro route hm
    obtain ⟨before, hbefore, rfl⟩ := List.mem_map.mp hm
    exact hok before hbefore

theorem Keeps.finished (h : planning.Keeps plans) {outcome : RouteOutcome}
    (hlast : (RoutePhase.finished outcome).last = planning.phase.last) :
    Keeps plans ⟨.finished outcome, planning.routes⟩ := by
  refine ⟨h.plans, h.called, ?_⟩
  intro route hm
  rw [hlast]
  exact h.ok route hm

theorem Keeps.gather (h : planning.Keeps plans)
    (hreturned : ∀ route ∈ planning.routes, (route.call planning.phase).isRunning = false) :
    planning.gather.Keeps plans := by
  unfold RoutePlanning.gather
  cases hphase : planning.phase with
  | expanding =>
    have hok : ∀ route ∈ planning.routes, route.Ok .expanding := by
      intro route hm
      have := h.ok route hm
      rw [hphase] at this
      exact this
    dsimp only
    split
    · apply h.map
      · intro route
        unfold PlannedRoute.startRollback
        split <;> rfl
      · intro route
        unfold PlannedRoute.startRollback
        split <;> rfl
      · intro route hm
        obtain ⟨hbetween, hrollback, -⟩ := hok route hm
        have heither := hbetween.either.symm
        unfold PlannedRoute.startRollback
        split
        · exact .start heither
        · show route.rollback.Between _ _ _
          rw [hrollback]
          exact .notCalled heither
    · rename_i hnone
      apply h.map
      · intro route
        unfold PlannedRoute.startRemoval
        split <;> rfl
      · intro route
        unfold PlannedRoute.startRemoval
        split <;> rfl
      · intro route hm
        have hraised : route.expansion.raised = false := by
          by_contra hraised
          apply hnone
          apply List.any_eq_true.mpr
          exact ⟨route, hm, by simpa using hraised⟩
        have hrunning := hreturned route hm
        rw [hphase] at hrunning
        obtain ⟨hheld, hexpanded⟩ :=
          held_widest (hok route hm) (h.called route hm) hrunning hraised
        unfold PlannedRoute.startRemoval
        split
        · exact ⟨.start (.inl hheld), hexpanded⟩
        · refine ⟨?_, hexpanded⟩
          rw [(hok route hm).2.2]
          exact .notCalled (.inl hheld)
  | rollingBack =>
    dsimp only
    split
    · exact h.finished (by rw [hphase]; rfl)
    · exact h.finished (by rw [hphase]; rfl)
  | trimming =>
    dsimp only
    split
    · exact h.finished (by rw [hphase]; rfl)
    · split
      · exact h.finished (by rw [hphase]; rfl)
      · exact h.finished (by rw [hphase]; rfl)
  | finished outcome => exact h

theorem Keeps.step (h : planning.Keeps plans) {event : RouteEvent}
    (hstep : Step planning event next) : next.Keeps plans := by
  cases hstep with
  | applied hroute hrunning =>
    exact h.proceed hroute hrunning (fun hcall => nomatch hcall) fun _ _ hold => hold.applied
  | withdrawn hroute hrunning =>
    exact h.proceed hroute hrunning (fun hcall => nomatch hcall) fun _ _ hold => hold.withdrawn
  | returned hroute hrunning hkept =>
    exact h.proceed hroute hrunning (fun hcall => nomatch hcall) fun _ _ hold =>
      hold.returned hkept
  | gathered _ hreturned => exact h.gather hreturned

theorem keeps_run {events : List RouteEvent} (hrun : Run Step (start plans) events planning) :
    planning.Keeps plans :=
  hrun.preserves (fun h hstep => h.step hstep) (keeps_start plans)

/-! ## What is covered -/

/-- A route keeps what it had, unless all expansions have succeeded and it has what it gets. -/
theorem Keeps.held (h : planning.Keeps plans) :
    (∀ route ∈ planning.routes, ∀ symbol ∈ route.plan.current, symbol ∈ route.held) ∨
      ∀ route ∈ planning.routes, (∀ symbol ∈ route.plan.target, symbol ∈ route.held) ∧
        (route.plan.expands → route.expansion = .returned .updated) := by
  have hcurrent : ∀ route : PlannedRoute Symbol,
      route.held = route.plan.current ∨ route.held = route.plan.widest →
        ∀ symbol ∈ route.plan.current, symbol ∈ route.held := by
    intro route heither symbol hm
    rcases heither with hheld | hheld
    · rw [hheld]
      exact hm
    · rw [hheld]
      exact RoutePlan.mem_widest.mpr (.inl hm)
  cases hlast : planning.phase.last with
  | expanding =>
    left
    intro route hm
    have hok := h.ok route hm
    rw [hlast] at hok
    exact hcurrent route hok.1.either
  | rollingBack =>
    left
    intro route hm
    have hok := h.ok route hm
    rw [hlast] at hok
    exact hcurrent route (UpdateCall.Between.either hok).symm
  | trimming | finished outcome =>
    right
    intro route hm
    have hok := h.ok route hm
    rw [hlast] at hok
    refine ⟨?_, hok.2⟩
    intro symbol hsymbol
    rcases hok.1.either with hheld | hheld
    · rw [hheld]
      exact RoutePlan.mem_widest.mpr (.inr hsymbol)
    · rw [hheld]
      exact hsymbol

theorem Keeps.restored (h : planning.Keeps plans)
    (hfailed : ∃ route ∈ planning.routes, route.expansion.raised = true)
    (hrollback : ∀ route ∈ planning.routes, route.plan.expands →
      route.rollback = .returned .updated) :
    ∀ route ∈ planning.routes, route.held = route.plan.current := by
  obtain ⟨failed, hfailedMem, hraised⟩ := hfailed
  have hexpands : failed.plan.expands = true := by
    by_contra hnot
    have hcalled := (h.called failed hfailedMem).mpr (by simpa using hnot)
    rw [hcalled] at hraised
    cases hraised
  have hfailedOk := h.ok failed hfailedMem
  cases hlast : planning.phase.last with
  | expanding =>
    rw [hlast] at hfailedOk
    have hreturned := hrollback failed hfailedMem hexpands
    rw [hfailedOk.2.1] at hreturned
    cases hreturned
  | rollingBack =>
    intro route hm
    have hok := h.ok route hm
    rw [hlast] at hok
    by_cases hroute : route.plan.expands = true
    · exact UpdateCall.Between.updated hok (hrollback route hm hroute)
    · have hwidest : route.plan.widest = route.plan.current := if_neg hroute
      rcases UpdateCall.Between.either hok with hheld | hheld
      · rw [hheld, hwidest]
      · exact hheld
  | trimming | finished outcome =>
    rw [hlast] at hfailedOk
    rw [hfailedOk.2 hexpands] at hraised
    cases hraised

/-- Whatever the updates do, in whatever order: what was covered and is to be covered is
covered, no route loses what it had before all expansions succeeded, and a rollback that succeeds
restores all routes. -/
theorem addReadyRemove_covers {events : List RouteEvent}
    (hrun : Run Step (start plans) events planning) :
    planning.routes.map PlannedRoute.plan = plans ∧
      (∀ symbol, (∃ plan ∈ plans, symbol ∈ plan.current) →
        (∃ plan ∈ plans, symbol ∈ plan.target) →
          ∃ route ∈ planning.routes, symbol ∈ route.held) ∧
      ((∃ route ∈ planning.routes, ∃ symbol ∈ route.plan.current, symbol ∉ route.held) →
        ∀ route ∈ planning.routes, route.plan.expands → route.expansion = .returned .updated) ∧
      ((∃ route ∈ planning.routes, route.expansion.raised = true) →
        (∀ route ∈ planning.routes, route.plan.expands →
          route.rollback = .returned .updated) →
        ∀ route ∈ planning.routes, route.held = route.plan.current) := by
  have h := keeps_run hrun
  have hroutes : ∀ plan ∈ plans, ∃ route ∈ planning.routes, route.plan = plan := by
    intro plan hm
    rw [← h.plans] at hm
    exact List.mem_map.mp hm
  refine ⟨h.plans, ?_, ?_, h.restored⟩
  · intro symbol hcurrent htarget
    obtain ⟨old, hold, hmold⟩ := hcurrent
    obtain ⟨new, hnew, hmnew⟩ := htarget
    rcases h.held with hkept | hgot
    · obtain ⟨route, hm, rfl⟩ := hroutes old hold
      exact ⟨route, hm, hkept route hm symbol hmold⟩
    · obtain ⟨route, hm, rfl⟩ := hroutes new hnew
      exact ⟨route, hm, (hgot route hm).1 symbol hmnew⟩
  · intro hlost
    obtain ⟨route, hm, symbol, hcurrent, hmissing⟩ := hlost
    rcases h.held with hkept | hgot
    · exact absurd (hkept route hm symbol hcurrent) hmissing
    · exact fun route hm => (hgot route hm).2

/-- Two routes swap a symbol. The second expansion fails, and both are rolled back. -/
def swapPlans : List (RoutePlan Nat) := [⟨[1], [2]⟩, ⟨[2], [1]⟩]

def swapEvents : List RouteEvent :=
  [.applied 1, .returned 0 .updated true, .returned 1 .failed true, .gathered,
    .returned 1 .updated true, .returned 0 .updated true, .gathered]

def swapRestored : RoutePlanning Nat where
  phase := .finished .expansionFailed
  routes := [
    { plan := ⟨[1], [2]⟩
      held := [1]
      expansion := .returned .updated
      rollback := .returned .updated },
    { plan := ⟨[2], [1]⟩
      held := [2]
      expansion := .returned .failed
      rollback := .returned .updated }]

theorem swap_run : Run Step (start swapPlans) swapEvents swapRestored := by
  apply Run.cons (.applied rfl rfl)
  apply Run.cons (.returned rfl rfl fun _ => rfl)
  apply Run.cons (.returned rfl rfl fun _ => rfl)
  apply Run.cons (.gathered (fun outcome h => by cases h) (by decide))
  apply Run.cons (.returned rfl rfl fun _ => rfl)
  apply Run.cons (.returned rfl rfl fun _ => rfl)
  apply Run.cons (.gathered (fun outcome h => by cases h) (by decide))
  exact .nil _

theorem addReadyRemove_covers_swap :
    Run Step (start swapPlans) swapEvents swapRestored ∧
      (∃ route ∈ swapRestored.routes, 1 ∈ route.held) ∧
      ∀ route ∈ swapRestored.routes, route.held = route.plan.current :=
  have h := addReadyRemove_covers swap_run
  ⟨swap_run, h.2.1 1 (by decide) (by decide), h.2.2.2 (by decide) (by decide)⟩

end RoutePlanning

end MiryFormal
