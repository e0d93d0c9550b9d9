import Mathlib
import MiryFormal.Collector.SourceUpdates

/-!
# The membership of the sources

At midnight `_apply_midnight_boundary` makes a due decision the active one and leads the sources to
its members, under a gap over the symbols that change. An update that fails is left to
`_membership_loop`, which has one slot for what is pending. The two tasks share the update lock of
the sources and nothing else; the boundary alone holds the operation lock, without which the sources
are neither started nor stopped. The model follows a service until one of its tasks ends.
-/

namespace MiryFormal

set_option autoImplicit false

variable {Symbol : Type} [LinearOrder Symbol] {symbolCount shardCount : Nat}

/-- What the boundary uses of a decision. -/
structure MembershipDecision (Symbol : Type) [LinearOrder Symbol] (symbolCount : Nat) where
  sequence : Nat
  members : List Symbol
  sorted : members.Pairwise (· < ·)
  length : members.length = symbolCount

/-- `tuple(sorted(set(previous.members) ^ set(decision.members)))` -/
def changedMembers {Member : Type*} [LinearOrder Member] (previous members : List Member) :
    List Member :=
  (previous.filter (· ∉ members) ++ members.filter (· ∉ previous)).insertionSort (· ≤ ·)

/-- `_pending_membership` -/
structure PendingMembership (Symbol : Type) where
  members : List Symbol
  gap : Option Nat
  changed : List Symbol
  deriving DecidableEq

/-- Where `_apply_midnight_boundary` is. -/
inductive BoundaryPhase (Symbol : Type) [LinearOrder Symbol] (symbolCount : Nat) where
  | idle
  /-- It has read the active decision and whether the sources run. -/
  | begun (previous : MembershipDecision Symbol symbolCount) (wasRunning : Bool)
  | opening (previous : MembershipDecision Symbol symbolCount) (changed : List Symbol)
  /-- The writers rotate. -/
  | rotating (previous : MembershipDecision Symbol symbolCount) (wasRunning : Bool)
      (gap : Option Nat) (changed : List Symbol)
  /-- In `update_instruments`. -/
  | updating (previous : MembershipDecision Symbol symbolCount) (gap : Option Nat)
      (changed : List Symbol)
  | closing (gap : Nat)
  | sealing

/-- Where `_membership_loop` is. -/
inductive RetryPhase (Symbol : Type) where
  | idle
  | delayed
  /-- In `update_instruments`. -/
  | updating (pending : PendingMembership Symbol)
  | closing (pending : PendingMembership Symbol) (gap : Nat)

def BoundaryPhase.gap : BoundaryPhase Symbol symbolCount → Option Nat
  | rotating _ _ gap _ | updating _ gap _ => gap
  | closing gap => some gap
  | _ => none

def RetryPhase.gap : RetryPhase Symbol → Option Nat
  | closing _ gap => some gap
  | _ => none

inductive Updater where
  | boundary
  | retry
  | rebalance
  deriving DecidableEq

structure MembershipService (Symbol : Type) [LinearOrder Symbol] (symbolCount : Nat) where
  active : MembershipDecision Symbol symbolCount
  sources : SourceManager Symbol
  /-- The holder of the update lock, and its call. -/
  update : Option (Updater × SourceUpdate Symbol) := none
  pending : Option (PendingMembership Symbol) := none
  requested : Bool := false
  boundary : BoundaryPhase Symbol symbolCount := .idle
  retry : RetryPhase Symbol := .idle
  nextGap : Nat := 0
  /-- The open gaps of the reason `PLANNED_BOUNDARY`. -/
  openGaps : List Nat := []

inductive MembershipEvent (Symbol : Type) [LinearOrder Symbol] (symbolCount : Nat) where
  | midnight
  | decided (decision : Option (MembershipDecision Symbol symbolCount))
  | gapOpened
  | rotated
  | boundaryAcquired
  | boundaryUpdated (outcome : RouteOutcome)
  | boundaryGapClosed
  | sealed
  | woken
  | retried (ready : Bool)
  | retryAcquired
  | retryUpdated (outcome : RouteOutcome)
  | retryGapClosed
  | started
  | stopped
  | rebalanceAcquired (messageRates : List (Symbol × Int))
  | rebalanced (outcome : RouteOutcome)

namespace MembershipService

/-- The boundary goes on without a failure. -/
def boundaryDone (service : MembershipService Symbol symbolCount) (gap : Option Nat) :
    BoundaryPhase Symbol symbolCount :=
  match gap, service.pending with
  | some gap, none => .closing gap
  | _, _ => .sealing

/-- The loop clears the slot if it still has what the loop has carried out. -/
def retryDone (service : MembershipService Symbol symbolCount)
    (carried : PendingMembership Symbol) : MembershipService Symbol symbolCount :=
  let pending := if service.pending = some carried then none else service.pending
  { service with
    pending
    retry := if pending = none then .idle else .delayed }

inductive Step (belowTrigger : Int → Int → Except String Bool) :
    MembershipService Symbol symbolCount → MembershipEvent Symbol symbolCount →
      MembershipService Symbol symbolCount → Prop where
  | midnight {service : MembershipService Symbol symbolCount} (hidle : service.boundary = .idle) :
      Step belowTrigger service .midnight
        { service with boundary := .begun service.active service.sources.running }
  | undecided {service : MembershipService Symbol symbolCount}
      {previous : MembershipDecision Symbol symbolCount} {wasRunning : Bool}
      (hbegun : service.boundary = .begun previous wasRunning) :
      Step belowTrigger service (.decided none) { service with boundary := .sealing }
  | decided {service : MembershipService Symbol symbolCount}
      {previous decision : MembershipDecision Symbol symbolCount} {wasRunning : Bool}
      (hbegun : service.boundary = .begun previous wasRunning)
      (hnewer : service.active.sequence < decision.sequence) :
      Step belowTrigger service (.decided (some decision))
        { service with
          active := decision
          boundary :=
            let changed := changedMembers previous.members decision.members
            if wasRunning = true ∧ changed ≠ [] then .opening previous changed
            else .rotating previous wasRunning none changed }
  | gapOpened {service : MembershipService Symbol symbolCount}
      {previous : MembershipDecision Symbol symbolCount} {changed : List Symbol}
      (hopening : service.boundary = .opening previous changed) :
      Step belowTrigger service .gapOpened
        { service with
          boundary := .rotating previous true (some service.nextGap) changed
          nextGap := service.nextGap + 1
          openGaps := service.nextGap :: service.openGaps }
  | rotated {service : MembershipService Symbol symbolCount}
      {previous : MembershipDecision Symbol symbolCount} {wasRunning : Bool} {gap : Option Nat}
      {changed : List Symbol}
      (hrotating : service.boundary = .rotating previous wasRunning gap changed) :
      Step belowTrigger service .rotated
        { service with
          boundary :=
            if wasRunning then .updating previous gap changed else service.boundaryDone gap }
  | boundaryAcquired {service : MembershipService Symbol symbolCount}
      {previous : MembershipDecision Symbol symbolCount} {gap : Option Nat} {changed : List Symbol}
      {update : SourceUpdate Symbol} (hupdating : service.boundary = .updating previous gap changed)
      (hfree : service.update = none)
      (hupdate : service.sources.updateInstruments service.active.members = .ok update) :
      Step belowTrigger service .boundaryAcquired
        { service with update := some (.boundary, update) }
  | boundaryUpdated {service : MembershipService Symbol symbolCount}
      {previous : MembershipDecision Symbol symbolCount} {gap : Option Nat} {changed : List Symbol}
      {update : SourceUpdate Symbol} {outcome : RouteOutcome} {after : List (List Symbol)}
      (hupdating : service.boundary = .updating previous gap changed)
      (hupdate : service.update = some (.boundary, update))
      (hrun : AddReadyRemove update.plans update.parties outcome after)
      (hsucceeded : outcome.succeeded = true) :
      Step belowTrigger service (.boundaryUpdated outcome)
        { service with
          sources := (service.sources.holding update after).commit update
          update := none
          boundary := service.boundaryDone gap }
  | boundaryDeferred {service : MembershipService Symbol symbolCount}
      {previous : MembershipDecision Symbol symbolCount} {gap : Option Nat} {changed : List Symbol}
      {update : SourceUpdate Symbol} {outcome : RouteOutcome} {after : List (List Symbol)}
      (hupdating : service.boundary = .updating previous gap changed)
      (hupdate : service.update = some (.boundary, update))
      (hrun : AddReadyRemove update.plans update.parties outcome after)
      (hincomplete : outcome.incomplete = true) :
      Step belowTrigger service (.boundaryUpdated outcome)
        { service with
          sources := service.sources.holding update after
          update := none
          pending := some ⟨service.active.members, gap, changed⟩
          requested := true
          boundary := .sealing }
  | boundaryGapClosed {service : MembershipService Symbol symbolCount} {gap : Nat}
      (hclosing : service.boundary = .closing gap) :
      Step belowTrigger service .boundaryGapClosed
        { service with
          boundary := .sealing
          openGaps := service.openGaps.erase gap }
  | sealed {service : MembershipService Symbol symbolCount}
      (hsealing : service.boundary = .sealing) :
      Step belowTrigger service .sealed { service with boundary := .idle }
  | woken {service : MembershipService Symbol symbolCount} (hidle : service.retry = .idle)
      (hrequested : service.requested = true) :
      Step belowTrigger service .woken
        { service with
          requested := false
          retry := if service.pending = none then .idle else .delayed }
  | retried {service : MembershipService Symbol symbolCount} {ready : Bool}
      (hdelayed : service.retry = .delayed) :
      Step belowTrigger service (.retried ready)
        { service with
          retry :=
            match service.pending with
            | none => .idle
            | some pending =>
                if service.sources.running && ready then .updating pending else .delayed }
  | retryAcquired {service : MembershipService Symbol symbolCount}
      {pending : PendingMembership Symbol} {update : SourceUpdate Symbol}
      (hupdating : service.retry = .updating pending) (hfree : service.update = none)
      (hupdate : service.sources.updateInstruments pending.members = .ok update) :
      Step belowTrigger service .retryAcquired { service with update := some (.retry, update) }
  | retryUpdated {service : MembershipService Symbol symbolCount}
      {pending : PendingMembership Symbol} {update : SourceUpdate Symbol} {outcome : RouteOutcome}
      {after : List (List Symbol)} (hupdating : service.retry = .updating pending)
      (hupdate : service.update = some (.retry, update))
      (hrun : AddReadyRemove update.plans update.parties outcome after)
      (hsucceeded : outcome.succeeded = true) :
      Step belowTrigger service (.retryUpdated outcome)
        (match pending.gap with
        | some gap =>
            { service with
              sources := (service.sources.holding update after).commit update
              update := none
              retry := .closing pending gap }
        | none =>
            { service with
              sources := (service.sources.holding update after).commit update
              update := none }.retryDone pending)
  | retryFailed {service : MembershipService Symbol symbolCount}
      {pending : PendingMembership Symbol} {update : SourceUpdate Symbol} {outcome : RouteOutcome}
      {after : List (List Symbol)} (hupdating : service.retry = .updating pending)
      (hupdate : service.update = some (.retry, update))
      (hrun : AddReadyRemove update.plans update.parties outcome after)
      (hincomplete : outcome.incomplete = true) :
      Step belowTrigger service (.retryUpdated outcome)
        { service with
          sources := service.sources.holding update after
          update := none
          retry := .delayed }
  | retryGapClosed {service : MembershipService Symbol symbolCount}
      {pending : PendingMembership Symbol} {gap : Nat}
      (hclosing : service.retry = .closing pending gap) :
      Step belowTrigger service .retryGapClosed
        ({ service with openGaps := service.openGaps.erase gap }.retryDone pending)
  | started {service : MembershipService Symbol symbolCount} {sources : SourceManager Symbol}
      (hidle : service.boundary = .idle)
      (hstart : service.sources.start service.active.members = .ok sources) :
      Step belowTrigger service .started { service with sources }
  | stopped {service : MembershipService Symbol symbolCount} (hidle : service.boundary = .idle)
      (hrunning : service.sources.running = true) :
      Step belowTrigger service .stopped
        { service with
          sources := service.sources.stop
          update := service.update.map fun holder =>
            (holder.1, { holder.2 with attached := false }) }
  | rebalanceAcquired {service : MembershipService Symbol symbolCount}
      {messageRates : List (Symbol × Int)} {sources : SourceManager Symbol}
      {update : SourceUpdate Symbol} (hfree : service.update = none)
      (hrebalance : service.sources.rebalancePublicRoutes belowTrigger messageRates =
        .ok (sources, update)) :
      Step belowTrigger service (.rebalanceAcquired messageRates)
        { service with
          sources
          update := some (.rebalance, update) }
  | rebalanced {service : MembershipService Symbol symbolCount} {update : SourceUpdate Symbol}
      {outcome : RouteOutcome} {after : List (List Symbol)}
      (hupdate : service.update = some (.rebalance, update))
      (hrun : AddReadyRemove update.plans update.parties outcome after)
      (hended : outcome.succeeded = true ∨ outcome.incomplete = true) :
      Step belowTrigger service (.rebalanced outcome)
        { service with
          sources :=
            if outcome.succeeded then (service.sources.holding update after).commit update
            else service.sources.holding update after
          update := none }

/-- The members that the sources have been led to last, or left with a slot that names them. -/
def reached (service : MembershipService Symbol symbolCount) : List Symbol :=
  match service.boundary with
  | .opening previous _ | .rotating previous _ _ _ | .updating previous _ _ => previous.members
  | _ => service.active.members

/-- The loop has carried out what is pending and closes its gap. -/
def Closing (service : MembershipService Symbol symbolCount) : Prop :=
  ∃ pending gap, service.retry = .closing pending gap ∧ service.pending = some pending

/-- When a boundary is through with its update, or has none to make because no sources run, nothing
older is pending, unless the decision changes no members, or the older membership has already been
carried out and will not be forgotten. -/
def Settles (service : MembershipService Symbol symbolCount) :
    MembershipEvent Symbol symbolCount → Prop
  | .rotated =>
      match service.boundary with
      | .rotating _ false _ changed => service.pending = none ∨ service.Closing ∨ changed = []
      | _ => True
  | .boundaryUpdated outcome =>
      match service.boundary with
      | .updating _ _ changed =>
          service.pending = none ∨ if outcome.succeeded then changed = [] else service.Closing
      | _ => True
  | _ => True

/-- What the boundary knows. -/
def Phased (service : MembershipService Symbol symbolCount) : Prop :=
  match service.boundary with
  | .begun previous wasRunning =>
      previous = service.active ∧ wasRunning = service.sources.running
  | .opening previous changed =>
      service.sources.running = true ∧
        changed = changedMembers previous.members service.active.members ∧ changed ≠ []
  | .rotating previous wasRunning gap changed =>
      wasRunning = service.sources.running ∧
        changed = changedMembers previous.members service.active.members ∧
        (gap = none ↔ ¬ (wasRunning = true ∧ changed ≠ []))
  | .updating previous gap changed =>
      service.sources.running = true ∧
        changed = changedMembers previous.members service.active.members ∧
        (gap = none ↔ changed = [])
  | _ => True

variable {belowTrigger : Int → Int → Except String Bool}
  {service next : MembershipService Symbol symbolCount}
  {event : MembershipEvent Symbol symbolCount}

theorem boundaryDone_cases (service : MembershipService Symbol symbolCount) (gap : Option Nat) :
    (∃ opened, gap = some opened ∧ service.pending = none ∧
        service.boundaryDone gap = .closing opened) ∨
      (gap = none ∨ service.pending ≠ none) ∧ service.boundaryDone gap = .sealing := by
  unfold boundaryDone
  cases gap with
  | none => exact .inr ⟨.inl rfl, rfl⟩
  | some gap =>
    cases hpending : service.pending with
    | none => exact .inl ⟨gap, rfl, rfl, rfl⟩
    | some pending => exact .inr ⟨.inr nofun, rfl⟩

/-- The sources neither start nor stop while the boundary is not idle. -/
theorem Phased.sources (h : service.Phased) {sources : SourceManager Symbol}
    (hrunning : sources.running = service.sources.running) :
    { service with sources }.Phased := by
  unfold Phased at h ⊢
  dsimp only
  rw [hrunning]
  exact h

theorem Step.phased (hstep : Step belowTrigger service event next) (h : service.Phased) :
    next.Phased := by
  cases hstep with
  | midnight hidle => exact ⟨rfl, rfl⟩
  | undecided hbegun => trivial
  | @decided previous decision wasRunning hbegun hnewer =>
    unfold Phased at h
    rw [hbegun] at h
    obtain ⟨rfl, hrunning⟩ := h
    unfold Phased
    dsimp only
    by_cases hchanges : wasRunning = true ∧
        changedMembers service.active.members decision.members ≠ []
    · rw [if_pos hchanges]
      exact ⟨hrunning ▸ hchanges.1, rfl, hchanges.2⟩
    · rw [if_neg hchanges]
      exact ⟨hrunning, rfl, fun _ => hchanges, fun _ => rfl⟩
  | gapOpened hopening =>
    unfold Phased at h
    rw [hopening] at h
    obtain ⟨hrunning, hchanged, hsome⟩ := h
    exact ⟨hrunning.symm, hchanged, nofun, fun hnot => absurd ⟨rfl, hsome⟩ hnot⟩
  | @rotated previous wasRunning gap changed hrotating =>
    unfold Phased at h
    rw [hrotating] at h
    obtain ⟨hrunning, hchanged, hgap⟩ := h
    cases wasRunning with
    | true =>
      refine ⟨hrunning.symm, hchanged, hgap.trans ?_⟩
      simp
    | false =>
      have hnone : gap = none := hgap.mpr nofun
      subst hnone
      trivial
  | boundaryAcquired hupdating hfree hupdate => exact h
  | @boundaryUpdated previous gap changed update outcome after hupdating hupdate hrun hsucceeded =>
    unfold Phased
    dsimp only
    rcases service.boundaryDone_cases gap with ⟨opened, -, -, hdone⟩ | ⟨-, hdone⟩
    · rw [hdone]
      trivial
    · rw [hdone]
      trivial
  | boundaryDeferred hupdating hupdate hrun hincomplete => trivial
  | boundaryGapClosed hclosing => trivial
  | sealed hsealing => trivial
  | woken hidle hrequested => exact h
  | retried hdelayed => exact h
  | retryAcquired hupdating hfree hupdate => exact h
  | @retryUpdated pending update outcome after hupdating hupdate hrun hsucceeded =>
    have hsources : (({ service with
        sources := (service.sources.holding update after).commit update } :
        MembershipService Symbol symbolCount)).Phased :=
      h.sources (SourceManager.holding_running _ _ _)
    cases pending.gap with
    | none => exact hsources
    | some gap => exact hsources
  | retryFailed hupdating hupdate hrun hincomplete =>
    exact h.sources (SourceManager.holding_running _ _ _)
  | retryGapClosed hclosing => exact h
  | started hidle hstart =>
    unfold Phased
    dsimp only
    rw [hidle]
    trivial
  | stopped hidle hrunning =>
    unfold Phased
    dsimp only
    rw [hidle]
    trivial
  | rebalanceAcquired hfree hrebalance =>
    exact h.sources (SourceManager.rebalance_running hrebalance)
  | rebalanced hupdate hrun hended =>
    apply h.sources
    split
    · exact SourceManager.holding_running _ _ _
    · exact SourceManager.holding_running _ _ _

/-! ## What holds of the gaps -/

/-- Someone is to close the gap. -/
def Owns (service : MembershipService Symbol symbolCount) (gap : Nat) : Prop :=
  service.boundary.gap = some gap ∨
    (∃ pending, service.pending = some pending ∧ pending.gap = some gap) ∨
    service.retry.gap = some gap

structure Owned (service : MembershipService Symbol symbolCount) : Prop where
  nodup : service.openGaps.Nodup
  fresh : ∀ gap, gap ∈ service.openGaps ∨ service.Owns gap → gap < service.nextGap
  owned : ∀ gap ∈ service.openGaps, service.Owns gap
  distinct : ∀ gap, service.boundary.gap = some gap →
    (∀ pending, service.pending = some pending → pending.gap ≠ some gap) ∧
      service.retry.gap ≠ some gap
  retrying : ∀ pending, service.retry = .updating pending → service.pending = some pending
  closing : ∀ pending gap, service.retry = .closing pending gap → pending.gap = some gap

theorem Owned.same (h : service.Owned) (hboundary : next.boundary.gap = service.boundary.gap)
    (hpending : next.pending = service.pending) (hretry : next.retry.gap = service.retry.gap)
    (hretrying : ∀ pending, next.retry = .updating pending → service.pending = some pending)
    (hclosing : ∀ pending gap, next.retry = .closing pending gap → pending.gap = some gap)
    (hnext : next.nextGap = service.nextGap) (hopen : next.openGaps = service.openGaps) :
    next.Owned := by
  have howns : ∀ gap, next.Owns gap ↔ service.Owns gap := by
    intro gap
    unfold Owns
    rw [hboundary, hpending, hretry]
  refine ⟨hopen ▸ h.nodup, fun gap hgap => ?_, fun gap hgap => ?_, fun gap hgap => ?_, ?_, hclosing⟩
  · rw [hnext]
    rw [hopen, howns] at hgap
    exact h.fresh gap hgap
  · rw [howns]
    rw [hopen] at hgap
    exact h.owned gap hgap
  · rw [hpending, hretry]
    rw [hboundary] at hgap
    exact h.distinct gap hgap
  · rw [hpending]
    exact hretrying

/-- Nothing of what the gaps depend on is changed, except for the phase of the boundary. -/
theorem Owned.moved (h : service.Owned) (hboundary : next.boundary.gap = service.boundary.gap)
    (hpending : next.pending = service.pending) (hretry : next.retry = service.retry)
    (hnext : next.nextGap = service.nextGap) (hopen : next.openGaps = service.openGaps) :
    next.Owned :=
  h.same hboundary hpending (congrArg RetryPhase.gap hretry) (hretry ▸ h.retrying)
    (hretry ▸ h.closing) hnext hopen

theorem Owned.boundaryClosed (h : service.Owned) {gap : Nat}
    (hclosing : service.boundary = .closing gap) :
    Owned { service with
      boundary := .sealing
      openGaps := service.openGaps.erase gap } := by
  have hgap : service.boundary.gap = some gap := by
    rw [hclosing]
    rfl
  refine ⟨h.nodup.erase gap, fun other hother => ?_, fun other hother => ?_, nofun, h.retrying,
    h.closing⟩
  · apply h.fresh other
    rcases hother with hm | hboundary | hothers
    · exact .inl (List.mem_of_mem_erase hm)
    · cases hboundary
    · exact .inr (.inr hothers)
  · right
    apply (h.owned other (List.mem_of_mem_erase hother)).resolve_left
    rw [hgap]
    rintro ⟨⟩
    exact h.nodup.not_mem_erase hother

theorem Owned.gapOpened (h : service.Owned) {previous : MembershipDecision Symbol symbolCount}
    {changed : List Symbol} (hopening : service.boundary = .opening previous changed) :
    Owned { service with
      boundary := .rotating previous true (some service.nextGap) changed
      nextGap := service.nextGap + 1
      openGaps := service.nextGap :: service.openGaps } := by
  have hfresh : ∀ gap, service.Owns gap → gap ≠ service.nextGap := by
    intro gap howns
    exact (h.fresh gap (.inr howns)).ne
  have hnone : service.boundary.gap = none := by
    rw [hopening]
    rfl
  refine ⟨?_, fun gap hgap => ?_, fun gap hgap => ?_, fun gap hgap => ?_, h.retrying, h.closing⟩
  · apply List.nodup_cons.mpr
    refine ⟨fun hm => ?_, h.nodup⟩
    exact (h.fresh _ (.inl hm)).false
  · rcases hgap with hm | hboundary | hothers
    · rcases List.mem_cons.mp hm with rfl | hm
      · exact Nat.lt_succ_self _
      · exact Nat.lt_succ_of_lt (h.fresh gap (.inl hm))
    · cases hboundary
      exact Nat.lt_succ_self _
    · exact Nat.lt_succ_of_lt (h.fresh gap (.inr (.inr hothers)))
  · rcases List.mem_cons.mp hgap with rfl | hm
    · exact .inl rfl
    · right
      apply (h.owned gap hm).resolve_left
      rw [hnone]
      exact nofun
  · cases hgap
    refine ⟨fun pending hpending heq => ?_, fun heq => ?_⟩
    · exact hfresh _ (.inr (.inl ⟨pending, hpending, heq⟩)) rfl
    · exact hfresh _ (.inr (.inr heq)) rfl

/-- The gap of a boundary whose update has failed is left to the slot. What was in the slot is
already being closed. -/
theorem Owned.deferred (h : service.Owned) {members changed : List Symbol} {requested : Bool}
    {sources : SourceManager Symbol}
    (hsettles : service.pending = none ∨ service.Closing) :
    Owned { service with
      sources
      update := none
      pending := some ⟨members, service.boundary.gap, changed⟩
      requested
      boundary := .sealing } := by
  have howns : ∀ gap, service.boundary.gap = some gap ∨ service.retry.gap = some gap ↔
      service.Owns gap := by
    intro gap
    constructor
    · exact fun hgap => hgap.imp_right .inr
    · rintro (hboundary | ⟨pending, hpending, hgap⟩ | hretry)
      · exact .inl hboundary
      · rcases hsettles with hnone | ⟨carried, closed, hclosing, hsame⟩
        · rw [hnone] at hpending
          cases hpending
        · rw [hsame] at hpending
          cases hpending
          rw [h.closing _ _ hclosing] at hgap
          right
          rw [hclosing]
          exact hgap
      · exact .inr hretry
  refine ⟨h.nodup, fun gap hgap => ?_, fun gap hgap => ?_, nofun, fun pending hretry => ?_,
    h.closing⟩
  · apply h.fresh gap
    apply hgap.imp_right
    rintro (hboundary | ⟨pending, hpending, hgap⟩ | hretry)
    · cases hboundary
    · cases hpending
      exact .inl hgap
    · exact .inr (.inr hretry)
  · rcases (howns gap).mpr (h.owned gap hgap) with hboundary | hretry
    · exact .inr (.inl ⟨_, rfl, hboundary⟩)
    · exact .inr (.inr hretry)
  · rcases hsettles with hnone | ⟨carried, closed, hclosing, -⟩
    · have hpending := h.retrying pending hretry
      rw [hnone] at hpending
      cases hpending
    · have hupdating : service.retry = .updating pending := hretry
      rw [hupdating] at hclosing
      cases hclosing

theorem Owned.retryClosing (h : service.Owned) {pending : PendingMembership Symbol} {gap : Nat}
    (hupdating : service.retry = .updating pending) (hgap : pending.gap = some gap)
    {sources : SourceManager Symbol} :
    Owned { service with
      sources
      update := none
      retry := .closing pending gap } := by
  have hpending := h.retrying pending hupdating
  have hnone : service.retry.gap = none := by
    rw [hupdating]
    rfl
  have howned : service.Owns gap := .inr (.inl ⟨pending, hpending, hgap⟩)
  refine ⟨h.nodup, fun other hother => ?_, fun other hother => ?_, fun other hother => ?_, nofun,
    fun carried closed hclosing => ?_⟩
  · apply h.fresh other
    apply hother.imp_right
    rintro (hboundary | hslot | hretry)
    · exact .inl hboundary
    · exact .inr (.inl hslot)
    · cases hretry
      exact howned
  · rcases h.owned other hother with hboundary | hslot | hretry
    · exact .inl hboundary
    · exact .inr (.inl hslot)
    · rw [hnone] at hretry
      cases hretry
  · refine ⟨(h.distinct other hother).1, fun heq => ?_⟩
    exact (h.distinct other hother).1 pending hpending (hgap.trans heq)
  · cases hclosing
    exact hgap

theorem retryDone_pending (service : MembershipService Symbol symbolCount)
    (carried : PendingMembership Symbol) :
    (service.pending = some carried ∧ (service.retryDone carried).pending = none) ∨
      service.pending ≠ some carried ∧ (service.retryDone carried).pending = service.pending := by
  unfold retryDone
  dsimp only
  by_cases heq : service.pending = some carried
  · rw [if_pos heq]
    exact .inl ⟨heq, rfl⟩
  · rw [if_neg heq]
    exact .inr ⟨heq, rfl⟩

theorem retryDone_retry (service : MembershipService Symbol symbolCount)
    (carried : PendingMembership Symbol) :
    (service.retryDone carried).retry = .idle ∨ (service.retryDone carried).retry = .delayed := by
  unfold retryDone
  dsimp only
  generalize (if service.pending = some carried then none else service.pending) = pending
  by_cases hnone : pending = none
  · exact .inl (if_pos hnone)
  · exact .inr (if_neg hnone)

/-- The loop is through with `carried`, whose gap is not open any more. -/
theorem Owned.retryDone {before : MembershipService Symbol symbolCount} (h : before.Owned)
    {carried : PendingMembership Symbol} {gap : Option Nat} (hcarried : carried.gap = gap)
    (hretry : before.retry.gap = gap) (hpending : service.pending = before.pending)
    (hboundary : service.boundary = before.boundary) (hnext : service.nextGap = before.nextGap)
    (hopen : service.openGaps = before.openGaps.filter (fun other => some other ≠ gap)) :
    (service.retryDone carried).Owned := by
  have hidle : (service.retryDone carried).retry.gap = none ∧
      (∀ pending, (service.retryDone carried).retry ≠ .updating pending) ∧
      ∀ pending gap, (service.retryDone carried).retry ≠ .closing pending gap := by
    rcases service.retryDone_retry carried with heq | heq
    · rw [heq]
      exact ⟨rfl, nofun, nofun⟩
    · rw [heq]
      exact ⟨rfl, nofun, nofun⟩
  have hslot : ∀ pending, (service.retryDone carried).pending = some pending →
      before.pending = some pending := by
    intro pending heq
    rcases service.retryDone_pending carried with ⟨-, hnone⟩ | ⟨-, hsame⟩
    · rw [hnone] at heq
      cases heq
    · rw [← hpending, ← hsame]
      exact heq
  refine ⟨?_, fun other hother => ?_, fun other hother => ?_, fun other hother => ?_,
    fun pending hupdating => absurd hupdating (hidle.2.1 pending),
    fun pending gap hclosing => absurd hclosing (hidle.2.2 pending gap)⟩
  · show service.openGaps.Nodup
    rw [hopen]
    exact h.nodup.filter _
  · show other < service.nextGap
    rw [hnext]
    apply h.fresh other
    rcases hother with hm | hown | ⟨pending, heq, hgap⟩ | hown
    · left
      have hm : other ∈ service.openGaps := hm
      rw [hopen] at hm
      exact (List.mem_filter.mp hm).1
    · right; left
      rw [← hboundary]
      exact hown
    · exact .inr (.inr (.inl ⟨pending, hslot pending heq, hgap⟩))
    · rw [hidle.1] at hown
      cases hown
  · have hm : other ∈ service.openGaps := hother
    rw [hopen, List.mem_filter] at hm
    have hne : some other ≠ gap := of_decide_eq_true hm.2
    rcases h.owned other hm.1 with hown | ⟨pending, heq, hgap⟩ | hown
    · left
      show service.boundary.gap = some other
      rw [hboundary]
      exact hown
    · right; left
      refine ⟨pending, ?_, hgap⟩
      rcases service.retryDone_pending carried with ⟨hsame, -⟩ | ⟨-, hsame⟩
      · rw [hpending, heq] at hsame
        cases hsame
        exact absurd (hgap.symm.trans hcarried) hne
      · rw [hsame, hpending]
        exact heq
    · exact absurd (hown.symm.trans hretry) hne
  · refine ⟨fun pending heq => ?_, fun heq => ?_⟩
    · have hown : service.boundary.gap = some other := hother
      rw [hboundary] at hown
      exact (h.distinct other hown).1 pending (hslot pending heq)
    · rw [hidle.1] at heq
      cases heq

/-- The gap that a boundary has opened is closed, unless the slot is taken. -/
theorem boundaryDone_gap {gap : Option Nat} (hsettles : gap = none ∨ service.pending = none) :
    (service.boundaryDone gap).gap = gap := by
  rcases service.boundaryDone_cases gap with ⟨opened, rfl, -, hdone⟩ | ⟨hnot, hdone⟩
  · rw [hdone]
    rfl
  · have hnone : gap = none := by
      rcases hsettles with hnone | hpending
      · exact hnone
      · exact hnot.resolve_right (not_not.mpr hpending)
    rw [hdone, hnone]
    rfl

theorem Owned.boundaryDone (h : service.Owned) {gap : Option Nat}
    (hsame : service.boundary.gap = gap) (hsettles : gap = none ∨ service.pending = none)
    {sources : SourceManager Symbol} {update : Option (Updater × SourceUpdate Symbol)} :
    Owned { service with
      sources
      update
      boundary := service.boundaryDone gap } := by
  apply h.moved
  · rw [hsame]
    exact boundaryDone_gap hsettles
  · rfl
  · rfl
  · rfl
  · rfl

theorem Owned.woken (h : service.Owned) (hidle : service.retry = .idle) :
    Owned { service with
      requested := false
      retry := if service.pending = none then .idle else .delayed } := by
  have hretry : service.retry.gap = none := by
    rw [hidle]
    rfl
  by_cases hnone : service.pending = none
  · rw [if_pos hnone]
    exact h.same rfl rfl hretry.symm nofun nofun rfl rfl
  · rw [if_neg hnone]
    exact h.same rfl rfl hretry.symm nofun nofun rfl rfl

theorem Owned.retried (h : service.Owned) (hdelayed : service.retry = .delayed) (ready : Bool) :
    Owned { service with
      retry :=
        match service.pending with
        | none => .idle
        | some pending =>
            if service.sources.running && ready then .updating pending else .delayed } := by
  have hretry : service.retry.gap = none := by
    rw [hdelayed]
    rfl
  cases hpending : service.pending with
  | none => exact h.same rfl hpending.symm hretry.symm nofun nofun rfl rfl
  | some pending =>
    dsimp only
    split
    · refine h.same rfl hpending.symm hretry.symm ?_ nofun rfl rfl
      rintro _ ⟨⟩
      exact hpending
    · exact h.same rfl hpending.symm hretry.symm nofun nofun rfl rfl

theorem Owned.retryClosed (h : service.Owned) {pending : PendingMembership Symbol} {gap : Nat}
    (hclosing : service.retry = .closing pending gap) :
    Owned ({ service with openGaps := service.openGaps.erase gap }.retryDone pending) := by
  apply h.retryDone (h.closing pending gap hclosing)
  · rw [hclosing]
    rfl
  · rfl
  · rfl
  · rfl
  · dsimp only
    rw [h.nodup.erase_eq_filter]
    apply List.filter_congr
    intro other _
    by_cases heq : other = gap
    · simp [heq]
    · simp [heq]

theorem Step.owned (hstep : Step belowTrigger service event next) (hphased : service.Phased)
    (hsettles : service.Settles event) (h : service.Owned) : next.Owned := by
  cases hstep with
  | midnight hidle => exact h.moved (by rw [hidle]; rfl) rfl rfl rfl rfl
  | undecided hbegun => exact h.moved (by rw [hbegun]; rfl) rfl rfl rfl rfl
  | decided hbegun hnewer =>
    apply h.moved
    · rw [hbegun]
      dsimp only
      split <;> rfl
    · rfl
    · rfl
    · rfl
    · rfl
  | gapOpened hopening => exact h.gapOpened hopening
  | @rotated previous wasRunning gap changed hrotating =>
    unfold Phased at hphased
    rw [hrotating] at hphased
    cases wasRunning with
    | true => exact h.moved (by rw [hrotating]; rfl) rfl rfl rfl rfl
    | false => exact h.boundaryDone (by rw [hrotating]; rfl) (.inl (hphased.2.2.mpr nofun))
  | boundaryAcquired hupdating hfree hupdate => exact h.moved rfl rfl rfl rfl rfl
  | @boundaryUpdated previous gap changed update outcome after hupdating hupdate hrun hsucceeded =>
    unfold Phased at hphased
    unfold Settles at hsettles
    rw [hupdating] at hphased hsettles
    dsimp only at hsettles
    rw [if_pos hsucceeded] at hsettles
    exact h.boundaryDone (by rw [hupdating]; rfl) (hsettles.symm.imp_left hphased.2.2.mpr)
  | @boundaryDeferred previous gap changed update outcome after hupdating hupdate hrun hincomplete =>
    unfold Settles at hsettles
    rw [hupdating] at hsettles
    dsimp only at hsettles
    rw [RouteOutcome.not_succeeded hincomplete, if_neg Bool.false_ne_true] at hsettles
    have hgap : service.boundary.gap = gap := by
      rw [hupdating]
      rfl
    rw [← hgap]
    exact h.deferred hsettles
  | boundaryGapClosed hclosing => exact h.boundaryClosed hclosing
  | sealed hsealing => exact h.moved (by rw [hsealing]; rfl) rfl rfl rfl rfl
  | woken hidle hrequested => exact h.woken hidle
  | @retried ready hdelayed => exact h.retried hdelayed ready
  | retryAcquired hupdating hfree hupdate => exact h.moved rfl rfl rfl rfl rfl
  | @retryUpdated pending update outcome after hupdating hupdate hrun hsucceeded =>
    cases hgap : pending.gap with
    | some gap => exact h.retryClosing hupdating hgap
    | none =>
      apply h.retryDone hgap
      · rw [hupdating]
        rfl
      · rfl
      · rfl
      · rfl
      · simp
  | retryFailed hupdating hupdate hrun hincomplete =>
    exact h.same rfl rfl (by rw [hupdating]; rfl) nofun nofun rfl rfl
  | retryGapClosed hclosing => exact h.retryClosed hclosing
  | started hidle hstart => exact h.moved rfl rfl rfl rfl rfl
  | stopped hidle hrunning => exact h.moved rfl rfl rfl rfl rfl
  | rebalanceAcquired hfree hrebalance => exact h.moved rfl rfl rfl rfl rfl
  | rebalanced hupdate hrun hended => exact h.moved rfl rfl rfl rfl rfl

/-! ## What holds of the sources -/

/-- What the holder of the lock is leading the sources to. -/
def Holding (shardCount : Nat) (service : MembershipService Symbol symbolCount) :
    Updater → SourceUpdate Symbol → Prop
  | .boundary, update =>
      (∃ previous gap changed, service.boundary = .updating previous gap changed) ∧
        update.attached = true ∧
        update.Replaces symbolCount shardCount service.sources service.active.members
  | .retry, update => ∃ pending, service.retry = .updating pending ∧
      (∃ before, update.sharedPlan = some ⟨before, pending.members⟩) ∧
      (update.attached = true → service.sources.running = true ∧
        update.Replaces symbolCount shardCount service.sources pending.members) ∧
      -- sources that were started while the loop was in its update have been given what was reached
      (update.attached = false → service.sources.running = true →
        service.sources.instruments = service.reached ∧ service.sources.Collects service.reached)
  | .rebalance, update => update.sharedPlan = none ∧
      (update.attached = true → service.sources.running = true ∧
        update.Moves shardCount service.sources)

structure Steady (shardCount : Nat) (service : MembershipService Symbol symbolCount) : Prop where
  sources : service.sources.Sound symbolCount shardCount
  listed : ∀ pending, service.pending = some pending → Listed symbolCount pending.members
  pending : ∀ pending, service.pending = some pending →
    pending.members = service.reached ∨ service.Closing
  settled : service.pending = none ∨ service.Closing → service.sources.running = true →
    service.sources.instruments = service.reached ∧ service.sources.Collects service.reached
  agrees : service.sources.running = true → service.sources.Agrees service.reached
  update : ∀ owner update, service.update = some (owner, update) →
    update.Sound symbolCount shardCount ∧ service.Holding shardCount owner update

theorem listed_members (decision : MembershipDecision Symbol symbolCount) :
    Listed symbolCount decision.members :=
  ⟨decision.sorted.imp fun hlt => ne_of_lt hlt, decision.length⟩

theorem members_eq_of_unchanged {previous decision : MembershipDecision Symbol symbolCount}
    (h : changedMembers previous.members decision.members = []) :
    previous.members = decision.members := by
  have hnone : ∀ symbol, symbol ∉ previous.members.filter (· ∉ decision.members) ++
      decision.members.filter (· ∉ previous.members) := by
    intro symbol hm
    have hsorted := (List.mem_insertionSort (· ≤ ·)).mpr hm
    unfold changedMembers at h
    rw [h] at hsorted
    cases hsorted
  apply previous.sorted.eq_of_mem_iff decision.sorted
  intro symbol
  have := hnone symbol
  simp only [List.mem_append, List.mem_filter, decide_eq_true_eq, not_or, not_and, not_not] at this
  exact ⟨this.1, this.2⟩

theorem Steady.frame (h : service.Steady shardCount) (hsources : next.sources = service.sources)
    (hpending : next.pending = service.pending) (hclosing : next.Closing ↔ service.Closing)
    (hreached : next.reached = service.reached) (hupdate : next.update = service.update)
    (hholding : ∀ owner update, service.update = some (owner, update) →
      service.Holding shardCount owner update → next.Holding shardCount owner update) :
    next.Steady shardCount := by
  refine ⟨hsources ▸ h.sources, hpending ▸ h.listed, ?_, ?_, ?_, ?_⟩
  · rw [hpending, hreached, hclosing]
    exact h.pending
  · rw [hpending, hclosing, hsources, hreached]
    exact h.settled
  · rw [hsources, hreached]
    exact h.agrees
  · rw [hupdate]
    intro owner update heq
    obtain ⟨hsound, hold⟩ := h.update owner update heq
    exact ⟨hsound, hholding owner update heq hold⟩

/-- The boundary goes on outside of its update. -/
theorem Steady.boundaryMoved (h : service.Steady shardCount)
    (hnot : ∀ previous gap changed, service.boundary ≠ .updating previous gap changed)
    (hsources : next.sources = service.sources) (hpending : next.pending = service.pending)
    (hretry : next.retry = service.retry) (hreached : next.reached = service.reached)
    (hupdate : next.update = service.update) : next.Steady shardCount := by
  apply h.frame hsources hpending
  · unfold Closing
    rw [hretry, hpending]
  · exact hreached
  · exact hupdate
  · intro owner update _ hholding
    cases owner with
    | boundary =>
      obtain ⟨⟨previous, gap, changed, heq⟩, -⟩ := hholding
      exact absurd heq (hnot previous gap changed)
    | retry =>
      unfold Holding at hholding ⊢
      rw [hretry, hsources, hreached]
      exact hholding
    | rebalance =>
      unfold Holding at hholding ⊢
      rw [hsources]
      exact hholding

/-- The loop goes on outside of its update and without closing a gap. -/
theorem Steady.retryMoved (h : service.Steady shardCount) {requested : Bool}
    {retry : RetryPhase Symbol}
    (hnot : ∀ pending, service.retry ≠ .updating pending)
    (hbefore : ∀ pending gap, service.retry ≠ .closing pending gap)
    (hafter : ∀ pending gap, retry ≠ .closing pending gap) :
    Steady shardCount { service with requested, retry } := by
  apply h.frame
  · rfl
  · rfl
  · constructor
    · rintro ⟨pending, gap, hclosing, -⟩
      exact absurd hclosing (hafter pending gap)
    · rintro ⟨pending, gap, hclosing, -⟩
      exact absurd hclosing (hbefore pending gap)
  · rfl
  · rfl
  · intro owner update _ hholding
    cases owner with
    | boundary => exact hholding
    | retry =>
      obtain ⟨pending, hupdating, -⟩ := hholding
      exact absurd hupdating (hnot pending)
    | rebalance => exact hholding

/-- Without sources nothing has to be reached. -/
theorem Steady.skipped (h : service.Steady shardCount) (hrunning : service.sources.running = false)
    {boundary : BoundaryPhase Symbol symbolCount}
    (hnot : ∀ previous gap changed, service.boundary ≠ .updating previous gap changed)
    (hpending : ∀ pending, service.pending = some pending →
      pending.members = { service with boundary }.reached ∨ service.Closing) :
    Steady shardCount { service with boundary } := by
  have hnone : ¬ service.sources.running = true := by
    rw [hrunning]
    exact nofun
  refine ⟨h.sources, h.listed, hpending, fun _ hrun => absurd hrun hnone,
    fun hrun => absurd hrun hnone, fun owner update hupdate => ?_⟩
  obtain ⟨hsound, hholding⟩ := h.update owner update hupdate
  refine ⟨hsound, ?_⟩
  cases owner with
  | boundary =>
    obtain ⟨⟨previous, gap, changed, heq⟩, -⟩ := hholding
    exact absurd heq (hnot previous gap changed)
  | retry =>
    obtain ⟨pending, hupdating, hplan, hattached, -⟩ := hholding
    exact ⟨pending, hupdating, hplan, hattached, fun _ hrun => absurd hrun hnone⟩
  | rebalance => exact hholding

theorem Steady.acquired (h : service.Steady shardCount) {owner : Updater}
    {update : SourceUpdate Symbol} (hsound : update.Sound symbolCount shardCount)
    (hholding : service.Holding shardCount owner update) :
    Steady shardCount { service with update := some (owner, update) } := by
  refine ⟨h.sources, h.listed, h.pending, h.settled, h.agrees, ?_⟩
  rintro _ _ ⟨⟩
  refine ⟨hsound, ?_⟩
  cases owner with
  | boundary => exact hholding
  | retry => exact hholding
  | rebalance => exact hholding

theorem reached_of_updating {previous : MembershipDecision Symbol symbolCount} {gap : Option Nat}
    {changed : List Symbol} (hupdating : service.boundary = .updating previous gap changed) :
    service.reached = previous.members := by
  unfold reached
  rw [hupdating]

theorem reached_boundaryDone (service : MembershipService Symbol symbolCount)
    (sources : SourceManager Symbol) (gap : Option Nat) :
    reached { service with
      sources
      update := none
      boundary := service.boundaryDone gap } = service.active.members := by
  unfold reached
  rcases service.boundaryDone_cases gap with ⟨opened, -, -, hdone⟩ | ⟨-, hdone⟩
  · rw [hdone]
  · rw [hdone]

/-- Before the update of a boundary that settles, what needs no change has the new members. -/
theorem Steady.agrees_active (h : service.Steady shardCount) (hphased : service.Phased)
    {previous : MembershipDecision Symbol symbolCount} {gap : Option Nat} {changed : List Symbol}
    (hupdating : service.boundary = .updating previous gap changed)
    (hsettles : service.pending = none ∨ service.Closing ∨ changed = []) :
    service.sources.Agrees service.active.members := by
  unfold Phased at hphased
  rw [hupdating] at hphased
  obtain ⟨hrunning, hchanged, -⟩ := hphased
  have hreached := reached_of_updating hupdating
  intro hsame
  have hkept : service.pending = none ∨ service.Closing →
      service.sources.market = service.active.members ∧
        service.sources.polled = service.active.members := by
    intro hsettled
    obtain ⟨hinstruments, hcollects⟩ := h.settled hsettled hrunning
    rw [hcollects.market, hcollects.polled, ← hinstruments, hsame]
    exact ⟨rfl, rfl⟩
  rcases hsettles with hnone | hclosing | hempty
  · exact hkept (.inl hnone)
  · exact hkept (.inr hclosing)
  · have hmembers : service.reached = service.active.members := by
      rw [hreached]
      exact members_eq_of_unchanged (hchanged ▸ hempty)
    rw [← hmembers]
    exact h.agrees hrunning (hsame.trans hmembers.symm)

theorem Steady.boundaryUpdated (h : service.Steady shardCount) (hphased : service.Phased)
    {previous : MembershipDecision Symbol symbolCount} {gap : Option Nat} {changed : List Symbol}
    (hupdating : service.boundary = .updating previous gap changed)
    {update : SourceUpdate Symbol} (hupdate : service.update = some (.boundary, update))
    {outcome : RouteOutcome} {after : List (List Symbol)}
    (hrun : AddReadyRemove update.plans update.parties outcome after)
    (hsucceeded : outcome.succeeded = true)
    (hsettles : service.pending = none ∨ changed = []) :
    Steady shardCount { service with
      sources := (service.sources.holding update after).commit update
      update := none
      boundary := service.boundaryDone gap } := by
  have hagrees := h.agrees_active hphased hupdating (hsettles.imp_right .inr)
  unfold Phased at hphased
  rw [hupdating] at hphased
  obtain ⟨hrunning, hchanged, -⟩ := hphased
  obtain ⟨hsound, -, hattached, hreplaces⟩ := h.update _ _ hupdate
  have hroutes := h.sources.routes hrunning
  obtain ⟨hheld, -, -, -⟩ := hreplaces.holding_sound hroutes hrun hattached h.sources hagrees
  have hreachedDone := reached_boundaryDone service
    ((service.sources.holding update after).commit update) gap
  obtain ⟨hinstruments, hcollects⟩ := hreplaces.collects hroutes hrun hattached hagrees hsucceeded
  refine ⟨(SourceManager.commit_sound hheld hsound).1, h.listed, ?_, ?_, ?_, nofun⟩
  · intro pending hpending
    rw [hreachedDone]
    rcases hsettles with hnone | hempty
    · have hsome : service.pending = some pending := hpending
      rw [hnone] at hsome
      cases hsome
    · apply (h.pending pending hpending).imp_left
      intro hmembers
      rw [hmembers, reached_of_updating hupdating]
      exact members_eq_of_unchanged (hchanged ▸ hempty)
  · intro _ _
    rw [hreachedDone]
    exact ⟨hinstruments, hcollects⟩
  · intro _
    rw [hreachedDone]
    exact hcollects.agrees

theorem Steady.boundaryDeferred (h : service.Steady shardCount) (hphased : service.Phased)
    (howned : service.Owned)
    {previous : MembershipDecision Symbol symbolCount} {gap : Option Nat} {changed : List Symbol}
    (hupdating : service.boundary = .updating previous gap changed)
    {update : SourceUpdate Symbol} (hupdate : service.update = some (.boundary, update))
    {outcome : RouteOutcome} {after : List (List Symbol)}
    (hrun : AddReadyRemove update.plans update.parties outcome after)
    (hsettles : service.pending = none ∨ service.Closing) :
    Steady shardCount { service with
      sources := service.sources.holding update after
      update := none
      pending := some ⟨service.active.members, gap, changed⟩
      requested := true
      boundary := .sealing } := by
  have hagrees := h.agrees_active hphased hupdating (hsettles.imp_right .inl)
  unfold Phased at hphased
  rw [hupdating] at hphased
  obtain ⟨hrunning, -, -⟩ := hphased
  obtain ⟨-, -, hattached, hreplaces⟩ := h.update _ _ hupdate
  have hroutes := h.sources.routes hrunning
  obtain ⟨hheld, -, -, hafter⟩ := hreplaces.holding_sound hroutes hrun hattached h.sources hagrees
  refine ⟨hheld, ?_, ?_, ?_, fun _ => hafter, nofun⟩
  · rintro _ ⟨⟩
    exact listed_members service.active
  · rintro _ ⟨⟩
    exact .inl rfl
  · -- the gap of the boundary is not the one that the loop closes
    rintro (hnone | ⟨pending, closed, hclosing, hsame⟩)
    · cases hnone
    · exfalso
      have hgap : service.boundary.gap = gap := by
        rw [hupdating]
        rfl
      have hcarried := howned.closing pending closed hclosing
      rw [← Option.some.inj hsame] at hcarried
      apply (howned.distinct closed (hgap.trans hcarried)).2
      have hretry : service.retry = .closing pending closed := hclosing
      rw [hretry]
      rfl

/-- The loop has something that is still pending, and leads the sources to what they were led to
last. -/
theorem Steady.retrying (h : service.Steady shardCount) (howned : service.Owned)
    {pending : PendingMembership Symbol} (hupdating : service.retry = .updating pending) :
    service.pending = some pending ∧ pending.members = service.reached := by
  have hpending := howned.retrying pending hupdating
  refine ⟨hpending, (h.pending pending hpending).resolve_right ?_⟩
  rintro ⟨carried, gap, hclosing, -⟩
  rw [hupdating] at hclosing
  cases hclosing

theorem Steady.retried_sources (h : service.Steady shardCount) (howned : service.Owned)
    {pending : PendingMembership Symbol} (hupdating : service.retry = .updating pending)
    {update : SourceUpdate Symbol} (hupdate : service.update = some (.retry, update))
    {outcome : RouteOutcome} {after : List (List Symbol)}
    (hrun : AddReadyRemove update.plans update.parties outcome after)
    (hsucceeded : outcome.succeeded = true) {sources : SourceManager Symbol}
    (hsources : sources = (service.sources.holding update after).commit update) :
    sources.Sound symbolCount shardCount ∧ (sources.running = true →
      sources.instruments = service.reached ∧ sources.Collects service.reached) := by
  obtain ⟨-, hmembers⟩ := h.retrying howned hupdating
  obtain ⟨hsound, pending', hsame, ⟨before, hplan⟩, hattached, hdetached⟩ := h.update _ _ hupdate
  rw [hupdating] at hsame
  cases hsame
  rw [hsources]
  cases hattach : update.attached with
  | true =>
    obtain ⟨hrunning, hreplaces⟩ := hattached hattach
    have hroutes := h.sources.routes hrunning
    have hagrees : service.sources.Agrees pending.members := hmembers ▸ h.agrees hrunning
    obtain ⟨hheld, -, -, -⟩ := hreplaces.holding_sound hroutes hrun hattach h.sources hagrees
    refine ⟨(SourceManager.commit_sound hheld hsound).1, fun _ => ?_⟩
    rw [← hmembers]
    exact hreplaces.collects hroutes hrun hattach hagrees hsucceeded
  | false =>
    rw [SourceManager.holding_detached hattach]
    refine ⟨(SourceManager.commit_sound h.sources hsound).1, fun hrunning => ?_⟩
    obtain ⟨hinstruments, hcollects⟩ := hdetached hattach hrunning
    refine ⟨?_, hcollects.routes, hcollects.market, hcollects.polled⟩
    unfold SourceManager.commit
    rw [hplan]
    exact hmembers

theorem Steady.retryFailed (h : service.Steady shardCount) (howned : service.Owned)
    {pending : PendingMembership Symbol} (hupdating : service.retry = .updating pending)
    {update : SourceUpdate Symbol} (hupdate : service.update = some (.retry, update))
    {outcome : RouteOutcome} {after : List (List Symbol)}
    (hrun : AddReadyRemove update.plans update.parties outcome after) :
    Steady shardCount { service with
      sources := service.sources.holding update after
      update := none
      retry := .delayed } := by
  obtain ⟨hpending, hmembers⟩ := h.retrying howned hupdating
  have hopen : ∀ {P : Prop}, (service.pending = none ∨ service.Closing) → P := by
    intro P hsettled
    exfalso
    rcases hsettled with hnone | ⟨carried, gap, hclosing, -⟩
    · rw [hpending] at hnone
      cases hnone
    · rw [hupdating] at hclosing
      cases hclosing
  obtain ⟨-, pending', hsame, -, hattached, -⟩ := h.update _ _ hupdate
  rw [hupdating] at hsame
  cases hsame
  have hheld : (service.sources.holding update after).Sound symbolCount shardCount ∧
      ((service.sources.holding update after).running = true →
        (service.sources.holding update after).Agrees service.reached) := by
    cases hattach : update.attached with
    | true =>
      obtain ⟨hrunning, hreplaces⟩ := hattached hattach
      have hagrees : service.sources.Agrees pending.members := hmembers ▸ h.agrees hrunning
      obtain ⟨hheld, -, -, hafter⟩ := hreplaces.holding_sound (h.sources.routes hrunning) hrun
        hattach h.sources hagrees
      exact ⟨hheld, fun _ => hmembers ▸ hafter⟩
    | false =>
      rw [SourceManager.holding_detached hattach]
      exact ⟨h.sources, h.agrees⟩
  refine ⟨hheld.1, h.listed, fun carried heq => ?_, ?_, hheld.2, nofun⟩
  · have heq : service.pending = some carried := heq
    rw [hpending] at heq
    cases heq
    exact .inl hmembers
  · rintro (hnone | ⟨carried, gap, hclosing, -⟩)
    · exact hopen (.inl hnone)
    · cases hclosing

theorem steady_retryDone {carried : PendingMembership Symbol}
    (hsources : service.sources.Sound symbolCount shardCount)
    (hlisted : ∀ pending, service.pending = some pending → Listed symbolCount pending.members)
    (hpending : ∀ pending, service.pending = some pending → pending ≠ carried →
      pending.members = service.reached)
    (hsettled : service.pending = none ∨ service.pending = some carried →
      service.sources.running = true →
        service.sources.instruments = service.reached ∧ service.sources.Collects service.reached)
    (hagrees : service.sources.running = true → service.sources.Agrees service.reached)
    (hupdate : ∀ owner update, service.update = some (owner, update) → owner ≠ .retry ∧
      update.Sound symbolCount shardCount ∧ service.Holding shardCount owner update) :
    (service.retryDone carried).Steady shardCount := by
  have hopen : ¬ (service.retryDone carried).Closing := by
    rintro ⟨pending, gap, hclosing, -⟩
    rcases service.retryDone_retry carried with heq | heq
    · rw [heq] at hclosing
      cases hclosing
    · rw [heq] at hclosing
      cases hclosing
  have hslot : ∀ pending, (service.retryDone carried).pending = some pending →
      service.pending = some pending ∧ pending ≠ carried := by
    intro pending heq
    rcases service.retryDone_pending carried with ⟨-, hnone⟩ | ⟨hne, hsame⟩
    · rw [hnone] at heq
      cases heq
    · rw [hsame] at heq
      refine ⟨heq, ?_⟩
      rintro rfl
      exact hne heq
  refine ⟨hsources, fun pending heq => hlisted pending (hslot pending heq).1,
    fun pending heq => ?_, fun hdone => ?_, hagrees, fun owner update heq => ?_⟩
  · obtain ⟨hold, hne⟩ := hslot pending heq
    exact .inl (hpending pending hold hne)
  · apply hsettled
    have hnone := hdone.resolve_right hopen
    rcases service.retryDone_pending carried with ⟨hcarried, -⟩ | ⟨-, hsame⟩
    · exact .inr hcarried
    · rw [hsame] at hnone
      exact .inl hnone
  · obtain ⟨hne, hsound, hholding⟩ := hupdate owner update heq
    refine ⟨hsound, ?_⟩
    cases owner with
    | boundary => exact hholding
    | retry => exact absurd rfl hne
    | rebalance => exact hholding

theorem Steady.retryGapClosed (h : service.Steady shardCount) {pending : PendingMembership Symbol}
    {gap : Nat} (hclosing : service.retry = .closing pending gap) {openGaps : List Nat} :
    ({ service with openGaps }.retryDone pending).Steady shardCount := by
  have hcarried : service.Closing → service.pending = some pending := by
    rintro ⟨carried, closed, heq, hpending⟩
    rw [hclosing] at heq
    cases heq
    exact hpending
  apply steady_retryDone
  · exact h.sources
  · exact h.listed
  · intro other hother hne
    apply (h.pending other hother).resolve_right
    intro hclosed
    have heq := (hcarried hclosed).symm.trans hother
    exact hne (Option.some.inj heq).symm
  · rintro (hnone | hsome)
    · exact h.settled (.inl hnone)
    · exact h.settled (.inr ⟨pending, gap, hclosing, hsome⟩)
  · exact h.agrees
  · intro owner update hupdate
    obtain ⟨hsound, hholding⟩ := h.update owner update hupdate
    refine ⟨?_, hsound, ?_⟩
    · rintro rfl
      obtain ⟨other, hupdating, -⟩ := hholding
      rw [hclosing] at hupdating
      cases hupdating
    · cases owner with
      | boundary => exact hholding
      | retry => exact hholding
      | rebalance => exact hholding

theorem Steady.retryUpdated (h : service.Steady shardCount) (howned : service.Owned)
    {pending : PendingMembership Symbol} (hupdating : service.retry = .updating pending)
    {update : SourceUpdate Symbol} (hupdate : service.update = some (.retry, update))
    {outcome : RouteOutcome} {after : List (List Symbol)}
    (hrun : AddReadyRemove update.plans update.parties outcome after)
    (hsucceeded : outcome.succeeded = true) :
    (∀ gap, Steady shardCount { service with
      sources := (service.sources.holding update after).commit update
      update := none
      retry := .closing pending gap }) ∧
    Steady shardCount ({ service with
      sources := (service.sources.holding update after).commit update
      update := none }.retryDone pending) := by
  obtain ⟨hpending, hmembers⟩ := h.retrying howned hupdating
  obtain ⟨hsound, hreached⟩ := h.retried_sources howned hupdating hupdate hrun hsucceeded rfl
  have hagrees : ((service.sources.holding update after).commit update).running = true →
      ((service.sources.holding update after).commit update).Agrees service.reached :=
    fun hrunning => (hreached hrunning).2.agrees
  constructor
  · intro gap
    refine ⟨hsound, h.listed, fun carried heq => ?_, fun _ => hreached, hagrees, nofun⟩
    have heq : service.pending = some carried := heq
    rw [hpending] at heq
    cases heq
    exact .inl hmembers
  · apply steady_retryDone
    · exact hsound
    · exact h.listed
    · intro carried heq hne
      have heq : service.pending = some carried := heq
      rw [hpending] at heq
      exact absurd (Option.some.inj heq).symm hne
    · exact fun _ => hreached
    · exact hagrees
    · exact nofun

/-! ## Starts, stops and rebalances -/

theorem reached_of_idle (hidle : service.boundary = .idle) :
    service.reached = service.active.members := by
  unfold reached
  rw [hidle]

theorem Steady.started (hpos : 0 < shardCount) (hle : shardCount ≤ symbolCount)
    (h : service.Steady shardCount) (hidle : service.boundary = .idle)
    {sources : SourceManager Symbol}
    (hstart : service.sources.start service.active.members = .ok sources) :
    Steady shardCount { service with sources } := by
  obtain ⟨hsound, -, hinstruments, hcollects⟩ := SourceManager.start_collects hpos hle h.sources
    (listed_members service.active) hstart
  have hstopped : service.sources.running = false := by
    unfold SourceManager.start at hstart
    split at hstart
    · cases hstart
    · rename_i hnot
      exact Bool.eq_false_iff.mpr hnot
  have hreached : reached { service with sources } = service.reached := rfl
  rw [← reached_of_idle hidle] at hinstruments hcollects
  refine ⟨hsound, h.listed, h.pending, fun _ _ => ⟨hinstruments, hcollects⟩,
    fun _ => hcollects.agrees, fun owner update hupdate => ?_⟩
  obtain ⟨hupdateSound, hholding⟩ := h.update owner update hupdate
  refine ⟨hupdateSound, ?_⟩
  cases owner with
  | boundary =>
    obtain ⟨⟨previous, gap, changed, hupdating⟩, -⟩ := hholding
    rw [hidle] at hupdating
    cases hupdating
  | retry =>
    obtain ⟨pending, hupdating, hplan, hattached, -⟩ := hholding
    refine ⟨pending, hupdating, hplan, fun hattach => ?_, fun _ _ => ⟨hinstruments, hcollects⟩⟩
    rw [(hattached hattach).1] at hstopped
    cases hstopped
  | rebalance =>
    obtain ⟨hplan, hattached⟩ := hholding
    refine ⟨hplan, fun hattach => ?_⟩
    rw [(hattached hattach).1] at hstopped
    cases hstopped

theorem Steady.stopped (h : service.Steady shardCount) (hidle : service.boundary = .idle) :
    Steady shardCount { service with
      sources := service.sources.stop
      update := service.update.map fun holder =>
        (holder.1, { holder.2 with attached := false }) } := by
  refine ⟨⟨h.sources.sharder, nofun, nofun⟩, h.listed, h.pending, fun _ => nofun, nofun,
    fun owner update hupdate => ?_⟩
  obtain ⟨⟨owner', before⟩, hbefore, heq⟩ := Option.map_eq_some_iff.mp hupdate
  cases heq
  obtain ⟨hsound, hholding⟩ := h.update owner' before hbefore
  refine ⟨⟨hsound.sharder, hsound.listed⟩, ?_⟩
  cases owner' with
  | boundary =>
    obtain ⟨⟨previous, gap, changed, hupdating⟩, -⟩ := hholding
    rw [hidle] at hupdating
    cases hupdating
  | retry =>
    obtain ⟨pending, hupdating, hplan, -⟩ := hholding
    exact ⟨pending, hupdating, hplan, nofun, fun _ => nofun⟩
  | rebalance => exact ⟨hholding.1, nofun⟩

theorem Steady.rebalanceAcquired (hpos : 0 < shardCount) (hle : shardCount ≤ symbolCount)
    (h : service.Steady shardCount) {messageRates : List (Symbol × Int)}
    {sources : SourceManager Symbol} {update : SourceUpdate Symbol}
    (hrebalance : service.sources.rebalancePublicRoutes belowTrigger messageRates =
      .ok (sources, update)) :
    Steady shardCount { service with
      sources
      update := some (.rebalance, update) } := by
  obtain ⟨hrunning, -, hsources, heq, hmoves, hsound⟩ :=
    SourceManager.rebalancePublicRoutes_moves hpos hle h.sources hrebalance
  generalize sources.sharder = sharder at heq
  subst heq
  refine ⟨hsources, h.listed, h.pending, fun hsettled hrun => ?_, h.agrees, ?_⟩
  · obtain ⟨hinstruments, hcollects⟩ := h.settled hsettled hrun
    exact ⟨hinstruments, hcollects.routes, hcollects.market, hcollects.polled⟩
  · rintro _ _ ⟨⟩
    exact ⟨hsound, hmoves.sharedPlan, fun _ => ⟨hrunning, hmoves⟩⟩

theorem Steady.moved (h : service.Steady shardCount) {sources : SourceManager Symbol}
    (hsound : sources.Sound symbolCount shardCount)
    (hrunning : sources.running = service.sources.running)
    (hinstruments : sources.instruments = service.sources.instruments)
    (hmarket : sources.market = service.sources.market)
    (hpolled : sources.polled = service.sources.polled)
    (hcollects : service.sources.running = true → ∀ members,
      service.sources.instruments = members → service.sources.Collects members →
        sources.Collects members) :
    Steady shardCount { service with
      sources
      update := none } := by
  refine ⟨hsound, h.listed, h.pending, fun hsettled hrun => ?_, fun hrun hsame => ?_, nofun⟩
  · have hrun : service.sources.running = true := hrunning ▸ hrun
    obtain ⟨hsame, hold⟩ := h.settled hsettled hrun
    exact ⟨hinstruments.trans hsame, hcollects hrun _ hsame hold⟩
  · have hrun : service.sources.running = true := hrunning ▸ hrun
    dsimp only at hsame ⊢
    rw [hmarket, hpolled]
    exact h.agrees hrun (hinstruments.symm.trans hsame)

theorem Steady.rebalanced (h : service.Steady shardCount) {update : SourceUpdate Symbol}
    (hupdate : service.update = some (.rebalance, update)) {outcome : RouteOutcome}
    {after : List (List Symbol)}
    (hrun : AddReadyRemove update.plans update.parties outcome after) :
    Steady shardCount { service with
      sources :=
        if outcome.succeeded then (service.sources.holding update after).commit update
        else service.sources.holding update after
      update := none } := by
  obtain ⟨hsound, hplan, hattached⟩ := h.update _ _ hupdate
  have hrunning := SourceManager.holding_running service.sources update after
  have hheld : (service.sources.holding update after).Sound symbolCount shardCount ∧
      (service.sources.holding update after).instruments = service.sources.instruments ∧
      (service.sources.holding update after).market = service.sources.market ∧
      (service.sources.holding update after).polled = service.sources.polled ∧
      ∀ members, service.sources.instruments = members → service.sources.Collects members →
        (service.sources.holding update after).Collects members := by
    cases hattach : update.attached with
    | true =>
      obtain ⟨hrunning, hmoves⟩ := hattached hattach
      have hroutes := h.sources.routes hrunning
      obtain ⟨heq, hlength⟩ := hmoves.holding_eq hroutes hrun hattach
      refine ⟨?_, ?_, ?_, ?_, fun _ => hmoves.collects hroutes hrun hattach⟩
      · rw [heq]
        exact ⟨h.sources.sharder, h.sources.listed, fun _ => hlength⟩
      · rw [heq]
      · rw [heq]
      · rw [heq]
    | false =>
      rw [SourceManager.holding_detached hattach]
      exact ⟨h.sources, rfl, rfl, rfl, fun _ _ hcollects => hcollects⟩
  obtain ⟨hheldSound, hinstruments, hmarket, hpolled, hcollects⟩ := hheld
  cases outcome.succeeded with
  | false =>
    exact h.moved hheldSound hrunning hinstruments hmarket hpolled fun _ => hcollects
  | true =>
    obtain ⟨hcommitted, hcommitRunning⟩ := SourceManager.commit_sound hheldSound hsound
    apply h.moved hcommitted (hcommitRunning.trans hrunning) ?_ hmarket hpolled
    · intro _ members hsame hold
      obtain ⟨hroutes, hmarket, hpolled⟩ := hcollects members hsame hold
      exact ⟨hroutes, hmarket, hpolled⟩
    · unfold SourceManager.commit
      rw [hplan]
      exact hinstruments

theorem Steady.rotated (h : service.Steady shardCount) (hphased : service.Phased)
    {previous : MembershipDecision Symbol symbolCount} {gap : Option Nat} {changed : List Symbol}
    (hrotating : service.boundary = .rotating previous false gap changed)
    (hsettles : service.pending = none ∨ service.Closing ∨ changed = []) :
    Steady shardCount { service with boundary := service.boundaryDone gap } := by
  unfold Phased at hphased
  rw [hrotating] at hphased
  obtain ⟨hrunning, hchanged, -⟩ := hphased
  apply h.skipped hrunning.symm
  · intro _ _ _ hupdating
    rw [hrotating] at hupdating
    cases hupdating
  · intro pending hpending
    have hreached : { service with boundary := service.boundaryDone gap }.reached =
        service.active.members := by
      unfold reached
      rcases service.boundaryDone_cases gap with ⟨opened, -, -, hdone⟩ | ⟨-, hdone⟩
      · rw [hdone]
      · rw [hdone]
    rw [hreached]
    rcases hsettles with hnone | hclosing | hempty
    · rw [hnone] at hpending
      cases hpending
    · exact .inr hclosing
    · apply (h.pending pending hpending).imp_left
      intro hmembers
      rw [hmembers]
      unfold reached
      rw [hrotating]
      exact members_eq_of_unchanged (hchanged ▸ hempty)

theorem Step.steady (hpos : 0 < shardCount) (hle : shardCount ≤ symbolCount)
    (hstep : Step belowTrigger service event next) (hphased : service.Phased)
    (howned : service.Owned) (hsettles : service.Settles event) (h : service.Steady shardCount) :
    next.Steady shardCount := by
  cases hstep with
  | midnight hidle =>
    refine h.boundaryMoved (by rw [hidle]; exact nofun) rfl rfl rfl ?_ rfl
    unfold reached
    rw [hidle]
  | undecided hbegun =>
    refine h.boundaryMoved (by rw [hbegun]; exact nofun) rfl rfl rfl ?_ rfl
    unfold reached
    rw [hbegun]
  | @decided previous decision wasRunning hbegun hnewer =>
    unfold Phased at hphased
    rw [hbegun] at hphased
    obtain ⟨rfl, -⟩ := hphased
    refine h.boundaryMoved (by rw [hbegun]; exact nofun) rfl rfl rfl ?_ rfl
    unfold reached
    rw [hbegun]
    dsimp only
    by_cases hchanges : wasRunning = true ∧
        changedMembers service.active.members decision.members ≠ []
    · rw [if_pos hchanges]
    · rw [if_neg hchanges]
  | gapOpened hopening =>
    refine h.boundaryMoved (by rw [hopening]; exact nofun) rfl rfl rfl ?_ rfl
    unfold reached
    rw [hopening]
  | @rotated previous wasRunning gap changed hrotating =>
    cases wasRunning with
    | true =>
      refine h.boundaryMoved (by rw [hrotating]; exact nofun) rfl rfl rfl ?_ rfl
      unfold reached
      rw [hrotating]
      rfl
    | false =>
      unfold Settles at hsettles
      rw [hrotating] at hsettles
      exact h.rotated hphased hrotating hsettles
  | boundaryAcquired hupdating hfree hupdate =>
    obtain ⟨hrunning, hattached, hreplaces, hsound⟩ :=
      SourceManager.updateInstruments_replaces hpos hle h.sources (listed_members service.active)
        hupdate
    exact h.acquired hsound ⟨⟨_, _, _, hupdating⟩, hattached, hreplaces⟩
  | boundaryUpdated hupdating hupdate hrun hsucceeded =>
    unfold Settles at hsettles
    rw [hupdating] at hsettles
    dsimp only at hsettles
    rw [if_pos hsucceeded] at hsettles
    exact h.boundaryUpdated hphased hupdating hupdate hrun hsucceeded hsettles
  | boundaryDeferred hupdating hupdate hrun hincomplete =>
    unfold Settles at hsettles
    rw [hupdating] at hsettles
    dsimp only at hsettles
    rw [RouteOutcome.not_succeeded hincomplete, if_neg Bool.false_ne_true] at hsettles
    exact h.boundaryDeferred hphased howned hupdating hupdate hrun hsettles
  | boundaryGapClosed hclosing =>
    refine h.boundaryMoved (by rw [hclosing]; exact nofun) rfl rfl rfl ?_ rfl
    unfold reached
    rw [hclosing]
  | sealed hsealing =>
    refine h.boundaryMoved (by rw [hsealing]; exact nofun) rfl rfl rfl ?_ rfl
    unfold reached
    rw [hsealing]
  | woken hidle hrequested =>
    apply h.retryMoved (by rw [hidle]; exact nofun) (by rw [hidle]; exact nofun)
    intro pending gap hclosing
    split at hclosing
    · cases hclosing
    · cases hclosing
  | retried hdelayed =>
    apply h.retryMoved (by rw [hdelayed]; exact nofun) (by rw [hdelayed]; exact nofun)
    intro pending gap hclosing
    split at hclosing
    · cases hclosing
    · split at hclosing
      · cases hclosing
      · cases hclosing
  | @retryAcquired pending update hupdating hfree hupdate =>
    obtain ⟨hpending, -⟩ := h.retrying howned hupdating
    obtain ⟨hrunning, hattached, hreplaces, hsound⟩ :=
      SourceManager.updateInstruments_replaces hpos hle h.sources (h.listed pending hpending)
        hupdate
    refine h.acquired hsound ⟨pending, hupdating, ⟨_, hreplaces.sharedPlan⟩,
      fun _ => ⟨hrunning, hreplaces⟩, fun hdetached => ?_⟩
    rw [hattached] at hdetached
    cases hdetached
  | @retryUpdated pending update outcome after hupdating hupdate hrun hsucceeded =>
    obtain ⟨hgap, hnone⟩ := h.retryUpdated howned hupdating hupdate hrun hsucceeded
    cases pending.gap with
    | some gap => exact hgap gap
    | none => exact hnone
  | retryFailed hupdating hupdate hrun hincomplete =>
    exact h.retryFailed howned hupdating hupdate hrun
  | retryGapClosed hclosing => exact h.retryGapClosed hclosing
  | started hidle hstart => exact h.started hpos hle hidle hstart
  | stopped hidle hrunning => exact h.stopped hidle
  | rebalanceAcquired hfree hrebalance => exact h.rebalanceAcquired hpos hle hrebalance
  | rebalanced hupdate hrun hended => exact h.rebalanced hupdate hrun

/-! ## Runs -/

/-- What is known of a service whose boundaries settle. -/
structure Orderly (shardCount : Nat) (service : MembershipService Symbol symbolCount) : Prop where
  phased : service.Phased
  owned : service.Owned
  steady : service.Steady shardCount

/-- A service before its sources are started for the first time. -/
def booted (active : MembershipDecision Symbol symbolCount) (messageRates : List (Symbol × Int))
    (hpos : 1 ≤ shardCount) : MembershipService Symbol symbolCount where
  active
  sources := { sharder := { count := shardCount, messageRates, count_pos := hpos } }

/-- Sources of one symbol and one shard. -/
def oneSymbol (symbol : Nat) (sharder : TrafficSharder Nat) : SourceManager Nat :=
  ⟨true, [symbol], sharder, [[symbol]], [symbol], [symbol]⟩

end MembershipService

end MiryFormal
