import Mathlib.Data.Finset.Basic
import Mathlib.Data.Finset.SDiff
import Mathlib.Data.Finset.Lattice.Lemmas
import MiryFormal.Shared.Channels
import MiryFormal.Shared.Runs

/-!
# Subscriptions and their audits

`SubscriptionController` tells the exchange what to subscribe to and asks it from time to time what
it is subscribed to. One lock is held from a request to its answer, so the streams in `_active` are
those that an audit should find. The exchange carries out what it acknowledges, in order, but it may
lose a subscription without a word. The model follows one connection until its first failure.
-/

namespace MiryFormal

set_option autoImplicit false

variable {Stream : Type} [DecidableEq Stream]

inductive ControlMethod (Stream : Type) where
  | subscribe (params : List Stream)
  | unsubscribe (params : List Stream)
  | listSubscriptions

/-- A message with an id: an error `code`, or a `result`. -/
structure ControlAnswer (Stream : Type) where
  code : Bool := false
  result : Option (List Stream)
  /-- When the exchange has sent it. -/
  servedAt : Nat

structure ControlResponse (Stream : Type) where
  answer : ControlAnswer Stream
  observedAt : Nat

structure SubscriptionUpdate (Stream : Type) where
  add : List Stream
  remove : List Stream

/-- Who has sent requests that change or list the subscriptions, and waits for their answers. All but
the first one hold the lock. -/
inductive ControlHolder (Stream : Type) where
  | idle
  | initial (request : Nat)
  | update (update : SubscriptionUpdate Stream) (requests : List Nat)
  | audit (request : Nat)

inductive ControlFailure (Stream : Type) where
  | rejected
  | mismatch (missing unexpected : Finset Stream) (affectedFrom : Nat)
  | unanswered (affectedFrom : Nat)

structure SubscriptionController (Stream : Type) where
  active : Finset Stream
  holder : ControlHolder Stream := .idle
  nextId : Nat
  /-- The futures of the requests that someone waits for. -/
  pending : Nat → Option (Option (ControlResponse Stream)) := fun _ => none
  /-- The response whose time is `_subscription_proven_realtime_ns`. -/
  proven : Option (ControlResponse Stream) := none
  failures : Nat := 0
  failure : Option (ControlFailure Stream) := none

namespace ControlMethod

/-- What the exchange does on a request. -/
def effect (subscribed : Finset Stream) : ControlMethod Stream → Finset Stream
  | subscribe params => subscribed ∪ params.toFinset
  | unsubscribe params => subscribed \ params.toFinset
  | listSubscriptions => subscribed

/-- What the exchange answers when it has carried out a request. -/
inductive Answers (subscribed : Finset Stream) :
    ControlMethod Stream → Option (List Stream) → Prop where
  | subscribe (params : List Stream) : Answers subscribed (.subscribe params) none
  | unsubscribe (params : List Stream) : Answers subscribed (.unsubscribe params) none
  | listSubscriptions {streams : List Stream} (h : streams.toFinset = subscribed) :
      Answers subscribed .listSubscriptions (some streams)

end ControlMethod

namespace SubscriptionUpdate

def apply (update : SubscriptionUpdate Stream) (active : Finset Stream) : Finset Stream :=
  active \ update.remove.toFinset ∪ update.add.toFinset

/-- The requests of an update, in the order in which they are sent. -/
def methods (update : SubscriptionUpdate Stream) : List (ControlMethod Stream) :=
  (if update.remove = [] then [] else [.unsubscribe update.remove]) ++
    if update.add = [] then [] else [.subscribe update.add]

end SubscriptionUpdate

namespace SubscriptionController

/-- `ControlRequests.deliver`, behind the check for a `code`. -/
def deliver (controller : SubscriptionController Stream) (id : Nat) (answer : ControlAnswer Stream)
    (now : Nat) : SubscriptionController Stream :=
  if answer.code then { controller with failure := some .rejected }
  else match controller.pending id with
    | some none =>
        { controller with pending := Function.update controller.pending id (some (some ⟨answer, now⟩)) }
    | _ => controller

/-- `_subscription_proven_realtime_ns or …` -/
def affectedFrom (controller : SubscriptionController Stream) (now : Nat) : Nat :=
  match controller.proven with
  | some response => if response.observedAt = 0 then now else response.observedAt
  | none => now

def forget (controller : SubscriptionController Stream) (id : Nat) :
    SubscriptionController Stream :=
  { controller with
    holder := .idle
    pending := Function.update controller.pending id none }

/-- `complete_initial` -/
def completeInitial (controller : SubscriptionController Stream) (id : Nat)
    (response : ControlResponse Stream) : SubscriptionController Stream :=
  match response.answer.result with
  | none => { controller.forget id with proven := some response }
  | some _ => { controller.forget id with failure := some .rejected }

def acknowledge (controller : SubscriptionController Stream) (update : SubscriptionUpdate Stream)
    (requests : List Nat) : SubscriptionController Stream :=
  { controller with
    active := update.apply controller.active
    holder := .idle
    pending := fun id => if id ∈ requests then none else controller.pending id }

/-- `_validate_audit`, and what `run_audits` does behind it. -/
def validateAudit (controller : SubscriptionController Stream) (id : Nat)
    (response : ControlResponse Stream) : SubscriptionController Stream :=
  let actual := (response.answer.result.getD []).toFinset
  if actual = controller.active then
    { controller.forget id with
      proven := some response
      failures := 0 }
  else
    { controller.forget id with
      failure := some (.mismatch (controller.active \ actual) (actual \ controller.active)
        (controller.affectedFrom response.observedAt)) }

def missAudit (controller : SubscriptionController Stream) (threshold id now : Nat) :
    SubscriptionController Stream :=
  { controller.forget id with
    failures := controller.failures + 1
    failure :=
      if threshold ≤ controller.failures + 1 then some (.unanswered (controller.affectedFrom now))
      else none }

end SubscriptionController

/-- The controller of a connection and the exchange at its other end. -/
structure ControlConnection (Stream : Type) where
  controller : SubscriptionController Stream
  channel : Channel (ControlMethod Stream) (ControlAnswer Stream)
  subscribed : Finset Stream
  now : Nat
  /-- What the exchange has lost, and when. -/
  dropped : List (Stream × Nat) := []

inductive ControlEvent (Stream : Type) where
  | waited (now : Nat)
  | dropped (stream : Stream)
  | served
  | refused
  | delivered
  | initialCompleted
  | updateTaken (update : SubscriptionUpdate Stream)
  | updateAcknowledged
  | auditSent
  | auditAnswered
  | auditMissed

namespace ControlConnection

/-- `ControlRequests.send` -/
def send (connection : ControlConnection Stream) (method : ControlMethod Stream) :
    ControlConnection Stream :=
  let id := connection.controller.nextId
  { connection with
    controller := { connection.controller with
      nextId := id + 1
      pending := Function.update connection.controller.pending id (some none) }
    channel := connection.channel.send id method }

def hold (connection : ControlConnection Stream) (holder : ControlHolder Stream) :
    ControlConnection Stream :=
  { connection with controller := { connection.controller with holder } }

/-- `_apply_update`, up to the answers. -/
def sendUpdate (connection : ControlConnection Stream) (update : SubscriptionUpdate Stream) :
    ControlConnection Stream :=
  (update.methods.foldl send connection).hold
    (.update update (List.range' connection.controller.nextId update.methods.length))

/-- A connection that has just sent its first request. -/
def opened (subscriptions : List Stream) (initialId now : Nat) : ControlConnection Stream :=
  send
    { controller := {
        active := subscriptions.toFinset
        holder := .initial initialId
        nextId := initialId }
      channel := {}
      subscribed := ∅
      now } (.subscribe subscriptions)

/-- What a task of the connection or the exchange does next. -/
inductive Turn (threshold : Nat) : ControlConnection Stream → ControlEvent Stream →
    ControlConnection Stream → Prop where
  | waited {connection : ControlConnection Stream} {now : Nat} (hle : connection.now ≤ now) :
      Turn threshold connection (.waited now) { connection with now }
  | dropped {connection : ControlConnection Stream} {stream : Stream}
      (hm : stream ∈ connection.subscribed) :
      Turn threshold connection (.dropped stream)
        { connection with
          subscribed := connection.subscribed.erase stream
          dropped := (stream, connection.now) :: connection.dropped }
  | served {connection : ControlConnection Stream} {id : Nat} {method : ControlMethod Stream}
      {requests : List (Nat × ControlMethod Stream)} {result : Option (List Stream)}
      (hrequests : connection.channel.requests = (id, method) :: requests)
      (hresult : method.Answers (method.effect connection.subscribed) result) :
      Turn threshold connection .served
        { connection with
          subscribed := method.effect connection.subscribed
          channel := ⟨requests, connection.channel.answers ++
            [(id, { result, servedAt := connection.now })]⟩ }
  | refused {connection : ControlConnection Stream} {id : Nat} {method : ControlMethod Stream}
      {requests : List (Nat × ControlMethod Stream)}
      (hrequests : connection.channel.requests = (id, method) :: requests) :
      Turn threshold connection .refused
        { connection with
          channel := ⟨requests, connection.channel.answers ++
            [(id, { code := true, result := none, servedAt := connection.now })]⟩ }
  | delivered {connection : ControlConnection Stream} {id : Nat} {answer : ControlAnswer Stream}
      {answers : List (Nat × ControlAnswer Stream)}
      (hanswers : connection.channel.answers = (id, answer) :: answers) :
      Turn threshold connection .delivered
        { connection with
          controller := connection.controller.deliver id answer connection.now
          channel := ⟨connection.channel.requests, answers⟩ }
  | initialCompleted {connection : ControlConnection Stream} {id : Nat}
      {response : ControlResponse Stream} (hholder : connection.controller.holder = .initial id)
      (hresponse : connection.controller.pending id = some (some response)) :
      Turn threshold connection .initialCompleted
        { connection with controller := connection.controller.completeInitial id response }
  | updateTaken {connection : ControlConnection Stream} {update : SubscriptionUpdate Stream}
      (hholder : connection.controller.holder = .idle) :
      Turn threshold connection (.updateTaken update) (connection.sendUpdate update)
  | updateAcknowledged {connection : ControlConnection Stream}
      {update : SubscriptionUpdate Stream} {requests : List Nat}
      (hholder : connection.controller.holder = .update update requests)
      (hresponses : ∀ id ∈ requests, ∃ response,
        connection.controller.pending id = some (some response)) :
      Turn threshold connection .updateAcknowledged
        { connection with controller := connection.controller.acknowledge update requests }
  | auditSent {connection : ControlConnection Stream}
      (hholder : connection.controller.holder = .idle) :
      Turn threshold connection .auditSent
        ((connection.send .listSubscriptions).hold (.audit connection.controller.nextId))
  | auditAnswered {connection : ControlConnection Stream} {id : Nat}
      {response : ControlResponse Stream} (hholder : connection.controller.holder = .audit id)
      (hresponse : connection.controller.pending id = some (some response)) :
      Turn threshold connection .auditAnswered
        { connection with controller := connection.controller.validateAudit id response }
  | auditMissed {connection : ControlConnection Stream} {id : Nat}
      (hholder : connection.controller.holder = .audit id) :
      Turn threshold connection .auditMissed
        { connection with
          controller := connection.controller.missAudit threshold id connection.now }

/-- The connection goes on until its first failure. -/
def Step (threshold : Nat) (connection : ControlConnection Stream) (event : ControlEvent Stream)
    (next : ControlConnection Stream) : Prop :=
  connection.controller.failure = none ∧ Turn threshold connection event next

/-! ## What is lost and what is known -/

variable {threshold : Nat} {connection next : ControlConnection Stream}
  {event : ControlEvent Stream}

/-- The exchange has lost the stream at `since` or later. -/
def LostSince (dropped : List (Stream × Nat)) (since : Nat) (stream : Stream) : Prop :=
  ∃ lostAt, (stream, lostAt) ∈ dropped ∧ since ≤ lostAt

/-- What is missing of the expected streams was lost at `since` or later, and nothing else is
there. -/
structure Matches (dropped : List (Stream × Nat)) (since : Nat) (expected actual : Finset Stream) :
    Prop where
  subset : actual ⊆ expected
  lost : ∀ stream ∈ expected, stream ∉ actual → LostSince dropped since stream

/-- What the exchange is to be subscribed to in the end. -/
def intended (connection : ControlConnection Stream) : Finset Stream :=
  match connection.controller.holder with
  | .update update _ => update.apply connection.controller.active
  | _ => connection.controller.active

/-- What it will be subscribed to when it has carried out all that is on its way. -/
def settled (connection : ControlConnection Stream) : Finset Stream :=
  connection.channel.settled ControlMethod.effect connection.subscribed

def provenAt (connection : ControlConnection Stream) : Nat :=
  match connection.controller.proven with
  | some response => response.answer.servedAt
  | none => 0

end ControlConnection

/-- The requests of the holder that change subscriptions. -/
def ControlHolder.changing : ControlHolder Stream → List Nat
  | initial request => [request]
  | update _ requests => requests
  | _ => []

structure ControlResponse.Observed (now : Nat) (response : ControlResponse Stream) : Prop where
  served : response.answer.servedAt ≤ response.observedAt
  observed : response.observedAt ≤ now
  pos : 0 < response.observedAt

namespace ControlConnection
variable {threshold : Nat} {connection next : ControlConnection Stream}
  {event : ControlEvent Stream}

/-- An answer that refuses a change is on its way. -/
def Refused (connection : ControlConnection Stream) : Prop :=
  ∃ entry ∈ connection.channel.answers, entry.2.code = true ∧
    entry.1 ∈ connection.controller.holder.changing

/-- Tags, futures and times. -/
structure Plumbed (connection : ControlConnection Stream) : Prop where
  fresh : connection.channel.Fresh connection.controller.nextId
  pendingLt : ∀ id, connection.controller.pending id ≠ none → id < connection.controller.nextId
  resolved : ∀ id response, connection.controller.pending id = some (some response) →
    id ∉ connection.channel.tags ∧ response.answer.code = false ∧ response.Observed connection.now
  served : ∀ entry ∈ connection.channel.answers, entry.2.servedAt ≤ connection.now
  proven : ∀ response, connection.controller.proven = some response →
    response.Observed connection.now
  now : 0 < connection.now

/-- The exchange has subscribed to everything. -/
def Acknowledges (connection : ControlConnection Stream) (answer : ControlAnswer Stream) : Prop :=
  answer.code = true ∨ answer.result = none ∧
    Matches connection.dropped answer.servedAt connection.controller.active connection.subscribed

/-- What the exchange lists was lost since then where it is missing now. -/
def Lists (connection : ControlConnection Stream) (answer : ControlAnswer Stream) : Prop :=
  answer.code = true ∨ ∃ streams, answer.result = some streams ∧
    Matches connection.dropped connection.provenAt connection.controller.active streams.toFinset ∧
    ∀ stream ∈ streams, stream ∉ connection.subscribed →
      LostSince connection.dropped answer.servedAt stream

/-- The answers to a request, wherever they are. -/
def Answered (connection : ControlConnection Stream) (id : Nat)
    (P : ControlAnswer Stream → Prop) : Prop :=
  (∀ entry ∈ connection.channel.answers, entry.1 = id → P entry.2) ∧
    ∀ response, connection.controller.pending id = some (some response) → P response.answer

structure Sound (connection : ControlConnection Stream) : Prop extends Plumbed connection where
  changing : ∀ entry ∈ connection.channel.requests, entry.2 ≠ .listSubscriptions →
    entry.1 ∈ connection.controller.holder.changing
  settled : connection.Refused ∨
    Matches connection.dropped connection.provenAt connection.intended connection.settled
  initial : ∀ id, connection.controller.holder = .initial id →
    (∃ params, connection.channel.requests = [(id, .subscribe params)] ∧
      params.toFinset = connection.controller.active ∧ connection.channel.answers = [] ∧
      connection.controller.pending id = some none) ∨
    connection.channel.requests = [] ∧ connection.Answered id connection.Acknowledges
  audit : ∀ id, connection.controller.holder = .audit id →
    (∀ entry ∈ connection.channel.requests, entry.1 = id → entry.2 = .listSubscriptions) ∧
      connection.Answered id connection.Lists
  begun : (∀ id, connection.controller.holder ≠ .initial id) →
    ∃ response, connection.controller.proven = some response

/-! ## Small facts -/

/-- At most `stream` has gone. -/
structure AllBut (stream : Stream) (before after : Finset Stream) : Prop where
  subset : after ⊆ before
  only : ∀ other ∈ before, other ∉ after → other = stream

theorem allBut_erase (stream : Stream) (state : Finset Stream) :
    AllBut stream state (state.erase stream) := by
  refine ⟨Finset.erase_subset stream state, fun other hm hnot => ?_⟩
  by_contra hne
  exact hnot (Finset.mem_erase.mpr ⟨hne, hm⟩)

theorem AllBut.effect {stream : Stream} {before after : Finset Stream}
    (h : AllBut stream before after) (method : ControlMethod Stream) :
    AllBut stream (method.effect before) (method.effect after) := by
  cases method with
  | subscribe params =>
    refine ⟨Finset.union_subset_union_left h.subset, fun other hm hnot => ?_⟩
    obtain ⟨hafter, hparams⟩ := Finset.notMem_union.mp hnot
    exact h.only other ((Finset.mem_union.mp hm).resolve_right hparams) hafter
  | unsubscribe params =>
    refine ⟨Finset.sdiff_subset_sdiff h.subset (Finset.Subset.refl _), fun other hm hnot => ?_⟩
    obtain ⟨hbefore, hparams⟩ := Finset.mem_sdiff.mp hm
    apply h.only other hbefore
    intro hafter
    exact hnot (Finset.mem_sdiff.mpr ⟨hafter, hparams⟩)
  | listSubscriptions => exact h

section Losses
variable {dropped dropped' : List (Stream × Nat)} {since : Nat} {stream : Stream}
variable {expected actual : Finset Stream}

omit [DecidableEq Stream] in
theorem LostSince.mono (h : LostSince dropped since stream) (hsub : dropped ⊆ dropped') :
    LostSince dropped' since stream := by
  obtain ⟨lostAt, hm, hle⟩ := h
  exact ⟨lostAt, hsub hm, hle⟩

omit [DecidableEq Stream] in
theorem Matches.mono (h : Matches dropped since expected actual) (hsub : dropped ⊆ dropped') :
    Matches dropped' since expected actual :=
  ⟨h.subset, fun stream hm hnot => (h.lost stream hm hnot).mono hsub⟩

theorem Matches.effect (h : Matches dropped since expected actual)
    (method : ControlMethod Stream) :
    Matches dropped since (method.effect expected) (method.effect actual) := by
  cases method with
  | subscribe params =>
    refine ⟨Finset.union_subset_union_left h.subset, fun stream hm hnot => ?_⟩
    obtain ⟨hactual, hparams⟩ := Finset.notMem_union.mp hnot
    exact h.lost stream ((Finset.mem_union.mp hm).resolve_right hparams) hactual
  | unsubscribe params =>
    refine ⟨Finset.sdiff_subset_sdiff h.subset (Finset.Subset.refl _), fun stream hm hnot => ?_⟩
    obtain ⟨hexpected, hparams⟩ := Finset.mem_sdiff.mp hm
    apply h.lost stream hexpected
    intro hactual
    exact hnot (Finset.mem_sdiff.mpr ⟨hactual, hparams⟩)
  | listSubscriptions => exact h

theorem Matches.lose (h : Matches dropped since expected actual) {after : Finset Stream}
    (hbut : AllBut stream actual after) {now : Nat} (hle : since ≤ now) :
    Matches ((stream, now) :: dropped) since expected after := by
  refine ⟨hbut.subset.trans h.subset, fun other hm hnot => ?_⟩
  by_cases hactual : other ∈ actual
  · obtain rfl := hbut.only other hactual hnot
    exact ⟨now, List.mem_cons_self, hle⟩
  · exact (h.lost other hm hactual).mono (List.subset_cons_self _ _)

end Losses

omit [DecidableEq Stream] in
theorem provenAt_le (h : connection.Plumbed) : connection.provenAt ≤ connection.now := by
  unfold provenAt
  cases hproven : connection.controller.proven with
  | none => exact Nat.zero_le _
  | some response => exact (h.proven response hproven).served.trans (h.proven response hproven).observed

/-- Without a change in flight, the exchange is where it will be. -/
theorem Sound.settled_eq (h : connection.Sound)
    (hnone : connection.controller.holder.changing = []) :
    connection.settled = connection.subscribed := by
  apply Channel.settled_idle
  intro entry hm state
  have hlist : entry.2 = .listSubscriptions := by
    by_contra hne
    have hchanging := h.changing entry hm hne
    rw [hnone] at hchanging
    cases hchanging
  rw [hlist]
  rfl

/-! ## Turns -/

theorem Sound.waited (h : connection.Sound) {now : Nat} (hle : connection.now ≤ now) :
    Sound { connection with now } := by
  have hobserved : ∀ {response : ControlResponse Stream}, response.Observed connection.now →
      response.Observed now :=
    fun hold => ⟨hold.served, hold.observed.trans hle, hold.pos⟩
  refine ⟨⟨h.fresh, h.pendingLt, fun id response heq => ?_, fun entry hm => ?_, fun response heq => ?_,
    ?_⟩, h.changing, h.settled, h.initial, h.audit, h.begun⟩
  · obtain ⟨hnot, hcode, hold⟩ := h.resolved id response heq
    exact ⟨hnot, hcode, hobserved hold⟩
  · exact (h.served entry hm).trans hle
  · exact hobserved (h.proven response heq)
  · exact h.now.trans_le hle

theorem Sound.dropped (h : connection.Sound) {stream : Stream} :
    Sound { connection with
      subscribed := connection.subscribed.erase stream
      dropped := (stream, connection.now) :: connection.dropped } := by
  have hsub : connection.dropped ⊆ (stream, connection.now) :: connection.dropped :=
    List.subset_cons_self _ _
  have hbut := allBut_erase stream connection.subscribed
  have hsettled : AllBut stream connection.settled
      (connection.channel.settled ControlMethod.effect (connection.subscribed.erase stream)) :=
    Channel.settled_rel ControlMethod.effect (fun method _ _ hold => hold.effect method) hbut
  refine ⟨⟨h.fresh, h.pendingLt, h.resolved, h.served, h.proven, h.now⟩, h.changing, ?_,
    fun id heq => ?_, fun id heq => ?_, h.begun⟩
  · apply h.settled.imp_right
    intro hmatches
    exact hmatches.lose hsettled (provenAt_le h.toPlumbed)
  · apply (h.initial id heq).imp_right
    rintro ⟨hempty, hanswers, hresponses⟩
    have hkeeps : ∀ answer, answer.servedAt ≤ connection.now → connection.Acknowledges answer →
        Acknowledges { connection with
          subscribed := connection.subscribed.erase stream
          dropped := (stream, connection.now) :: connection.dropped } answer := by
      rintro answer hle (hcode | ⟨hresult, hmatches⟩)
      · exact .inl hcode
      · exact .inr ⟨hresult, hmatches.lose hbut hle⟩
    refine ⟨hempty, fun entry hm hid => ?_, fun response hresponse => ?_⟩
    · exact hkeeps _ (h.served entry hm) (hanswers entry hm hid)
    · obtain ⟨-, -, hobserved⟩ := h.resolved id response hresponse
      exact hkeeps _ (hobserved.served.trans hobserved.observed) (hresponses response hresponse)
  · obtain ⟨hlists, hanswers, hresponses⟩ := h.audit id heq
    have hkeeps : ∀ answer, answer.servedAt ≤ connection.now → connection.Lists answer →
        Lists { connection with
          subscribed := connection.subscribed.erase stream
          dropped := (stream, connection.now) :: connection.dropped } answer := by
      rintro answer hle (hcode | ⟨streams, hresult, hmatches, hsince⟩)
      · exact .inl hcode
      · refine .inr ⟨streams, hresult, hmatches.mono hsub, fun other hm hnot => ?_⟩
        by_cases hheld : other ∈ connection.subscribed
        · obtain rfl := hbut.only other hheld hnot
          exact ⟨connection.now, List.mem_cons_self, hle⟩
        · exact (hsince other hm hheld).mono hsub
    refine ⟨hlists, fun entry hm hid => ?_, fun response hresponse => ?_⟩
    · exact hkeeps _ (h.served entry hm) (hanswers entry hm hid)
    · obtain ⟨-, -, hobserved⟩ := h.resolved id response hresponse
      exact hkeeps _ (hobserved.served.trans hobserved.observed) (hresponses response hresponse)

omit [DecidableEq Stream] in
/-- The exchange takes the first request off its way, whatever it makes of it. -/
theorem Plumbed.answered (h : connection.Plumbed) {id : Nat} {method : ControlMethod Stream}
    {requests : List (Nat × ControlMethod Stream)} {answer : ControlAnswer Stream}
    (hrequests : connection.channel.requests = (id, method) :: requests)
    (hserved : answer.servedAt = connection.now) {subscribed : Finset Stream} :
    Plumbed { connection with
      subscribed
      channel := ⟨requests, connection.channel.answers ++ [(id, answer)]⟩ } := by
  have hchannel : connection.channel = ⟨(id, method) :: requests, connection.channel.answers⟩ := by
    rw [← hrequests]
  have hfresh := h.fresh
  rw [hchannel] at hfresh
  refine ⟨hfresh.served answer, h.pendingLt, fun other response heq => ?_, fun entry hm => ?_,
    h.proven, h.now⟩
  · obtain ⟨hnot, hknown⟩ := h.resolved other response heq
    refine ⟨fun hm => hnot ?_, hknown⟩
    rw [hchannel]
    exact (Channel.tags_served method answer).mem_iff.mp hm
  · rcases List.mem_append.mp hm with hm | hm
    · exact h.served entry hm
    · rw [List.mem_singleton.mp hm]
      exact hserved.le

theorem Sound.requestServed (h : connection.Sound) {id : Nat} {method : ControlMethod Stream}
    {requests : List (Nat × ControlMethod Stream)} {result : Option (List Stream)}
    (hrequests : connection.channel.requests = (id, method) :: requests)
    (hresult : method.Answers (method.effect connection.subscribed) result) :
    Sound { connection with
      subscribed := method.effect connection.subscribed
      channel := ⟨requests, connection.channel.answers ++
        [(id, { result, servedAt := connection.now })]⟩ } := by
  have hsettled : connection.settled = Channel.settled ControlMethod.effect
      (method.effect connection.subscribed) (Channel.mk requests (connection.channel.answers ++
        [(id, { result, servedAt := connection.now })])) := by
    unfold ControlConnection.settled Channel.settled
    rw [hrequests]
    rfl
  have hhead : (id, method) ∈ connection.channel.requests := by
    rw [hrequests]
    exact List.mem_cons_self
  refine ⟨h.toPlumbed.answered hrequests rfl, fun entry hm => ?_, ?_, fun other heq => .inr ?_,
    fun other heq => ?_, h.begun⟩
  · apply h.changing entry
    rw [hrequests]
    exact List.mem_cons_of_mem _ hm
  · rcases h.settled with ⟨entry, hm, hrefused⟩ | hmatches
    · exact .inl ⟨entry, List.mem_append_left _ hm, hrefused⟩
    · rw [hsettled] at hmatches
      exact .inr hmatches
  · rcases h.initial other heq with ⟨params, hfirst, hactive, hanswers, hpending⟩ | ⟨hempty, -⟩
    · rw [hrequests] at hfirst
      cases hfirst
      have hmatches := h.settled.resolve_left (by
        rintro ⟨entry, hm, -⟩
        rw [hanswers] at hm
        cases hm)
      rw [hsettled] at hmatches
      have hsubset := hmatches.subset
      have hintended : connection.intended = connection.controller.active := by
        unfold intended
        rw [heq]
      rw [hintended] at hsubset
      cases hresult
      refine ⟨rfl, fun entry hm _ => ?_, fun response hresponse => ?_⟩
      · dsimp only at hm
        rw [hanswers, List.nil_append, List.mem_singleton] at hm
        rw [hm]
        refine .inr ⟨rfl, hsubset, fun stream hm hnot => ?_⟩
        rw [← hactive] at hm
        exact absurd (Finset.mem_union_right _ hm) hnot
      · dsimp only at hresponse
        rw [hpending] at hresponse
        cases hresponse
    · rw [hrequests] at hempty
      cases hempty
  · -- whoever asks for a list is the only one to ask
    have hnone : connection.controller.holder.changing = [] := by
      rw [heq]
      rfl
    obtain ⟨hlists, hanswers, hresponses⟩ := h.audit other heq
    have hlist : method = .listSubscriptions := by
      by_contra hne
      have hm := h.changing _ hhead hne
      rw [hnone] at hm
      cases hm
    subst hlist
    obtain ⟨streams, rfl, hstreams⟩ : ∃ streams, result = some streams ∧
        streams.toFinset = connection.subscribed := by
      cases hresult with
      | listSubscriptions hstreams => exact ⟨_, rfl, hstreams⟩
    refine ⟨fun entry hm => hlists entry ?_, fun entry hm hid => ?_, hresponses⟩
    · rw [hrequests]
      exact List.mem_cons_of_mem _ hm
    · rcases List.mem_append.mp hm with hm | hm
      · exact hanswers entry hm hid
      · rw [List.mem_singleton.mp hm]
        have hmatches := h.settled.resolve_left (by
          rintro ⟨entry, -, -, hchanging⟩
          rw [hnone] at hchanging
          cases hchanging)
        rw [h.settled_eq hnone] at hmatches
        have hintended : connection.intended = connection.controller.active := by
          unfold intended
          rw [heq]
        rw [hintended, ← hstreams] at hmatches
        refine .inr ⟨streams, rfl, hmatches, fun stream hm hnot => ?_⟩
        rw [← List.mem_toFinset, hstreams] at hm
        exact absurd hm hnot

theorem Sound.requestRefused (h : connection.Sound) {id : Nat} {method : ControlMethod Stream}
    {requests : List (Nat × ControlMethod Stream)}
    (hrequests : connection.channel.requests = (id, method) :: requests) :
    Sound { connection with
      channel := ⟨requests, connection.channel.answers ++
        [(id, { code := true, result := none, servedAt := connection.now })]⟩ } := by
  have hhead : (id, method) ∈ connection.channel.requests := by
    rw [hrequests]
    exact List.mem_cons_self
  have htail : ∀ entry ∈ requests, entry ∈ connection.channel.requests := by
    intro entry hm
    rw [hrequests]
    exact List.mem_cons_of_mem _ hm
  have hanswered : ∀ {other : Nat} {P : ControlAnswer Stream → Prop},
      connection.Answered other P → (∀ answer, answer.code = true → P answer) →
      Answered { connection with
        channel := ⟨requests, connection.channel.answers ++
          [(id, { code := true, result := none, servedAt := connection.now })]⟩ } other P := by
    rintro other P ⟨hanswers, hresponses⟩ hcode
    refine ⟨fun entry hm hid => ?_, hresponses⟩
    rcases List.mem_append.mp hm with hm | hm
    · exact hanswers entry hm hid
    · rw [List.mem_singleton.mp hm]
      exact hcode _ rfl
  refine ⟨h.toPlumbed.answered hrequests rfl, fun entry hm => h.changing entry (htail entry hm), ?_,
    fun other heq => .inr ?_, fun other heq => ?_, h.begun⟩
  · by_cases hlist : method = .listSubscriptions
    · rcases h.settled with ⟨entry, hm, hrefused⟩ | hmatches
      · exact .inl ⟨entry, List.mem_append_left _ hm, hrefused⟩
      · right
        have hsettled : connection.settled =
            Channel.settled ControlMethod.effect connection.subscribed
              (Channel.mk requests (connection.channel.answers ++
                [(id, { code := true, result := none, servedAt := connection.now })])) := by
          unfold ControlConnection.settled Channel.settled
          rw [hrequests, hlist]
          rfl
        rw [hsettled] at hmatches
        exact hmatches
    · refine .inl ⟨_, List.mem_append_right _ List.mem_cons_self, rfl, ?_⟩
      exact h.changing _ hhead hlist
  · rcases h.initial other heq with ⟨params, hfirst, -, hanswers, hpending⟩ | ⟨hempty, -⟩
    · rw [hrequests] at hfirst
      cases hfirst
      refine ⟨rfl, hanswered ⟨fun entry hm => ?_, fun response hresponse => ?_⟩ fun _ => .inl⟩
      · rw [hanswers] at hm
        cases hm
      · rw [hpending] at hresponse
        cases hresponse
    · rw [hrequests] at hempty
      cases hempty
  · obtain ⟨hlists, hold⟩ := h.audit other heq
    exact ⟨fun entry hm => hlists entry (htail entry hm), hanswered hold fun _ => .inl⟩

omit [DecidableEq Stream] in
theorem pending_deliver (controller : SubscriptionController Stream) (id now : Nat)
    {answer : ControlAnswer Stream} (hcode : answer.code = false) (other : Nat) :
    (controller.deliver id answer now).pending other = controller.pending other ∨
      other = id ∧ (controller.deliver id answer now).pending other = some (some ⟨answer, now⟩) := by
  unfold SubscriptionController.deliver
  rw [if_neg (by rw [hcode]; exact Bool.false_ne_true)]
  split
  · by_cases heq : other = id
    · refine .inr ⟨heq, ?_⟩
      dsimp only
      rw [heq, Function.update_self]
    · left
      exact Function.update_of_ne heq _ _
  · exact .inl rfl

omit [DecidableEq Stream] in
theorem deliver_eq (controller : SubscriptionController Stream) (id now : Nat)
    {answer : ControlAnswer Stream} (hcode : answer.code = false) :
    controller.deliver id answer now =
      { controller with pending := (controller.deliver id answer now).pending } := by
  unfold SubscriptionController.deliver
  rw [if_neg (by rw [hcode]; exact Bool.false_ne_true)]
  split <;> rfl

theorem Sound.answerDelivered (h : connection.Sound) {id : Nat} {answer : ControlAnswer Stream}
    {answers : List (Nat × ControlAnswer Stream)}
    (hanswers : connection.channel.answers = (id, answer) :: answers)
    (hcode : answer.code = false) :
    Sound { connection with
      controller := connection.controller.deliver id answer connection.now
      channel := ⟨connection.channel.requests, answers⟩ } := by
  have hchannel : connection.channel = ⟨connection.channel.requests, (id, answer) :: answers⟩ := by
    rw [← hanswers]
  have hhead : (id, answer) ∈ connection.channel.answers := by
    rw [hanswers]
    exact List.mem_cons_self
  have htail : ∀ entry ∈ answers, entry ∈ connection.channel.answers := by
    intro entry hm
    rw [hanswers]
    exact List.mem_cons_of_mem _ hm
  have hfresh := h.fresh
  rw [hchannel] at hfresh
  obtain ⟨hfresh, hgone⟩ := hfresh.received
  have hpending := pending_deliver connection.controller id connection.now hcode
  rw [deliver_eq connection.controller id connection.now hcode]
  generalize (connection.controller.deliver id answer connection.now).pending = pending at hpending ⊢
  have hanswered : ∀ {other : Nat} {P : ControlAnswer Stream → Prop},
      connection.Answered other P → Answered { connection with
        controller := { connection.controller with pending }
        channel := ⟨connection.channel.requests, answers⟩ } other P := by
    rintro other P ⟨hold, hresponses⟩
    refine ⟨fun entry hm => hold entry (htail entry hm), fun response hresponse => ?_⟩
    rcases hpending other with heq | ⟨rfl, heq⟩
    · exact hresponses response (heq ▸ hresponse)
    · have hresponse : pending other = some (some response) := hresponse
      rw [heq] at hresponse
      cases hresponse
      exact hold _ hhead rfl
  refine ⟨⟨hfresh, fun other hne => ?_, fun other response heq => ?_,
    fun entry hm => h.served entry (htail entry hm), h.proven, h.now⟩, h.changing, ?_,
    fun other heq => ?_, fun other heq => ?_, h.begun⟩
  · rcases hpending other with heq | ⟨rfl, heq⟩
    · exact h.pendingLt other (heq ▸ hne)
    · apply h.fresh.lt
      rw [hchannel]
      exact List.mem_append_right _ List.mem_cons_self
  · rcases hpending other with hsame | ⟨rfl, hnew⟩
    · obtain ⟨hnot, hknown⟩ := h.resolved other response (hsame ▸ heq)
      refine ⟨fun hm => hnot ?_, hknown⟩
      rw [hchannel]
      rcases List.mem_append.mp hm with hm | hm
      · exact List.mem_append_left _ hm
      · exact List.mem_append_right _ (List.mem_cons_of_mem _ hm)
    · have heq : pending other = some (some response) := heq
      rw [hnew] at heq
      cases heq
      exact ⟨hgone, hcode, h.served _ hhead, le_rfl, h.now⟩
  · rcases h.settled with ⟨entry, hm, hrefused, hchanging⟩ | hmatches
    · rw [hanswers] at hm
      rcases List.mem_cons.mp hm with rfl | hm
      · rw [hcode] at hrefused
        cases hrefused
      · exact .inl ⟨entry, hm, hrefused, hchanging⟩
    · exact .inr hmatches
  · rcases h.initial other heq with ⟨params, -, -, hempty, -⟩ | ⟨hempty, hold⟩
    · rw [hempty] at hanswers
      cases hanswers
    · exact .inr ⟨hempty, hanswered hold⟩
  · obtain ⟨hlists, hold⟩ := h.audit other heq
    exact ⟨hlists, hanswered hold⟩

omit [DecidableEq Stream] in
/-- The holder takes the answers it has waited for, or gives them up. -/
theorem Plumbed.released (h : connection.Plumbed) {controller : SubscriptionController Stream}
    (hnext : controller.nextId = connection.controller.nextId)
    (hpending : ∀ id, controller.pending id = none ∨
      controller.pending id = connection.controller.pending id)
    (hproven : ∀ response, controller.proven = some response →
      response.Observed connection.now) : Plumbed { connection with controller } := by
  refine ⟨?_, fun id hne => ?_, fun id response heq => ?_, h.served, hproven, h.now⟩
  · dsimp only
    rw [hnext]
    exact h.fresh
  · dsimp only at hne ⊢
    rw [hnext]
    rcases hpending id with hnone | hsame
    · exact absurd hnone hne
    · exact h.pendingLt id (hsame ▸ hne)
  · dsimp only at heq
    rcases hpending id with hnone | hsame
    · rw [hnone] at heq
      cases heq
    · exact h.resolved id response (hsame ▸ heq)

omit [DecidableEq Stream] in
theorem pending_forget (controller : SubscriptionController Stream) (id other : Nat) :
    (controller.forget id).pending other = none ∨
      (controller.forget id).pending other = controller.pending other := by
  unfold SubscriptionController.forget
  by_cases heq : other = id
  · left
    dsimp only
    rw [heq, Function.update_self]
  · right
    exact Function.update_of_ne heq _ _

/-- The lock is free again, and what is expected is what is settled. -/
theorem Plumbed.idle {controller : SubscriptionController Stream}
    (h : Plumbed { connection with controller }) (hidle : controller.holder = .idle)
    (hlists : ∀ entry ∈ connection.channel.requests, entry.2 = .listSubscriptions)
    {response : ControlResponse Stream} (hproven : controller.proven = some response)
    (hmatches : Matches connection.dropped response.answer.servedAt controller.active
      connection.settled) : Sound { connection with controller } := by
  refine ⟨h, fun entry hm hne => absurd (hlists entry hm) hne, .inr ?_, fun id heq => ?_,
    fun id heq => ?_, fun _ => ⟨response, hproven⟩⟩
  · have hintended : intended { connection with controller } = controller.active := by
      unfold intended
      dsimp only
      rw [hidle]
    have hat : provenAt { connection with controller } = response.answer.servedAt := by
      unfold provenAt
      dsimp only
      rw [hproven]
    rw [hintended, hat]
    exact hmatches
  · dsimp only at heq
    rw [hidle] at heq
    cases heq
  · dsimp only at heq
    rw [hidle] at heq
    cases heq

theorem Sound.initialCompleted (h : connection.Sound) {id : Nat}
    {response : ControlResponse Stream} (hholder : connection.controller.holder = .initial id)
    (hresponse : connection.controller.pending id = some (some response)) :
    Sound { connection with controller := connection.controller.completeInitial id response } := by
  obtain ⟨-, hcode, hobserved⟩ := h.resolved id response hresponse
  rcases h.initial id hholder with ⟨params, -, -, -, hpending⟩ | ⟨hempty, -, hresponses⟩
  · rw [hpending] at hresponse
    cases hresponse
  · obtain ⟨hresult, hmatches⟩ : response.answer.result = none ∧
        Matches connection.dropped response.answer.servedAt connection.controller.active
          connection.subscribed := by
      apply (hresponses response hresponse).resolve_left
      rw [hcode]
      exact Bool.false_ne_true
    unfold SubscriptionController.completeInitial
    rw [hresult]
    apply Plumbed.idle
    · apply h.toPlumbed.released
      · rfl
      · exact pending_forget connection.controller id
      · intro other heq
        cases heq
        exact hobserved
    · rfl
    · rw [hempty]
      exact nofun
    · rfl
    · have hsettled : connection.settled = connection.subscribed := by
        unfold ControlConnection.settled Channel.settled
        rw [hempty]
        rfl
      rw [hsettled]
      exact hmatches

omit [DecidableEq Stream] in
theorem provenAt_eq {response : ControlResponse Stream}
    (h : connection.controller.proven = some response) :
    connection.provenAt = response.answer.servedAt := by
  unfold provenAt
  rw [h]

theorem Sound.updateAcknowledged (h : connection.Sound) {update : SubscriptionUpdate Stream}
    {requests : List Nat} (hholder : connection.controller.holder = .update update requests)
    (hresponses : ∀ id ∈ requests, ∃ response,
      connection.controller.pending id = some (some response)) :
    Sound { connection with controller := connection.controller.acknowledge update requests } := by
  have hgone : ∀ id ∈ connection.controller.holder.changing, id ∉ connection.channel.tags := by
    intro id hm
    rw [hholder] at hm
    obtain ⟨response, hresponse⟩ := hresponses id hm
    exact (h.resolved id response hresponse).1
  have hmatches := h.settled.resolve_left (by
    rintro ⟨entry, hm, -, hchanging⟩
    apply hgone _ hchanging
    exact List.mem_append_right _ (List.mem_map_of_mem hm))
  obtain ⟨proof, hproven⟩ := h.begun (by rw [hholder]; exact nofun)
  have hintended : connection.intended = update.apply connection.controller.active := by
    unfold intended
    rw [hholder]
  rw [provenAt_eq hproven, hintended] at hmatches
  apply Plumbed.idle
  · apply h.toPlumbed.released
    · rfl
    · intro id
      unfold SubscriptionController.acknowledge
      dsimp only
      split
      · exact .inl rfl
      · exact .inr rfl
    · exact h.proven
  · rfl
  · intro entry hm
    by_contra hne
    apply hgone _ (h.changing entry hm hne)
    exact List.mem_append_left _ (List.mem_map_of_mem hm)
  · exact hproven
  · exact hmatches

theorem Sound.audited (h : connection.Sound) {id : Nat}
    (hholder : connection.controller.holder = .audit id) :
    (∀ entry ∈ connection.channel.requests, entry.2 = .listSubscriptions) ∧
      connection.settled = connection.subscribed ∧
      Matches connection.dropped connection.provenAt connection.controller.active
        connection.subscribed := by
  have hnone : connection.controller.holder.changing = [] := by
    rw [hholder]
    rfl
  have hmatches := h.settled.resolve_left (by
    rintro ⟨entry, -, -, hchanging⟩
    rw [hnone] at hchanging
    cases hchanging)
  have hintended : connection.intended = connection.controller.active := by
    unfold intended
    rw [hholder]
  rw [h.settled_eq hnone, hintended] at hmatches
  refine ⟨fun entry hm => ?_, h.settled_eq hnone, hmatches⟩
  by_contra hne
  have hchanging := h.changing entry hm hne
  rw [hnone] at hchanging
  cases hchanging

theorem Sound.auditMissed (h : connection.Sound) {id : Nat}
    (hholder : connection.controller.holder = .audit id) {failures : Nat}
    {failure : Option (ControlFailure Stream)} :
    Sound { connection with
      controller := { connection.controller.forget id with failures, failure } } := by
  obtain ⟨hlists, hsettled, hmatches⟩ := h.audited hholder
  obtain ⟨proof, hproven⟩ := h.begun (by rw [hholder]; exact nofun)
  apply Plumbed.idle
  · exact h.toPlumbed.released rfl (pending_forget connection.controller id) h.proven
  · rfl
  · exact hlists
  · exact hproven
  · rw [provenAt_eq hproven] at hmatches
    rw [hsettled]
    exact hmatches

/-- An audit that finds what it should proves what the exchange had when it answered. Another one
finds only that something is missing, all of it lost since the last proof. -/
theorem Sound.auditAnswered (h : connection.Sound) {id : Nat} {response : ControlResponse Stream}
    (hholder : connection.controller.holder = .audit id)
    (hresponse : connection.controller.pending id = some (some response))
    (hopen : connection.controller.failure = none) :
    ((connection.controller.validateAudit id response).failure = none ∧
      Sound { connection with controller := connection.controller.validateAudit id response }) ∨
    ∃ proof missing, connection.controller.proven = some proof ∧
      (connection.controller.validateAudit id response).failure =
        some (.mismatch missing ∅ proof.observedAt) ∧
      missing.Nonempty ∧
      ∀ stream ∈ missing, LostSince connection.dropped proof.answer.servedAt stream := by
  obtain ⟨hlists, hsettled, hmatches⟩ := h.audited hholder
  obtain ⟨-, hcode, hobserved⟩ := h.resolved id response hresponse
  obtain ⟨proof, hproven⟩ := h.begun (by rw [hholder]; exact nofun)
  obtain ⟨streams, hresult, hlisted, hsince⟩ :=
    ((h.audit id hholder).2.2 response hresponse).resolve_left (by
      rw [hcode]
      exact Bool.false_ne_true)
  unfold SubscriptionController.validateAudit
  dsimp only
  rw [hresult, Option.getD_some]
  by_cases hsame : streams.toFinset = connection.controller.active
  · left
    rw [if_pos hsame]
    refine ⟨hopen, ?_⟩
    apply Plumbed.idle
    · refine h.toPlumbed.released rfl (pending_forget connection.controller id) ?_
      intro other heq
      cases heq
      exact hobserved
    · rfl
    · exact hlists
    · rfl
    · rw [hsettled]
      refine ⟨hmatches.subset, fun stream hm hnot => hsince stream ?_ hnot⟩
      rw [← List.mem_toFinset, hsame]
      exact hm
  · right
    rw [if_neg hsame]
    refine ⟨proof, connection.controller.active \ streams.toFinset, hproven, ?_, ?_,
      fun stream hm => ?_⟩
    · have hnone : streams.toFinset \ connection.controller.active = ∅ :=
        Finset.sdiff_eq_empty_iff_subset.mpr hlisted.subset
      have hfrom : connection.controller.affectedFrom response.observedAt = proof.observedAt := by
        unfold SubscriptionController.affectedFrom
        rw [hproven]
        exact if_neg (h.proven proof hproven).pos.ne'
      dsimp only
      rw [hnone, hfrom]
    · apply Finset.sdiff_nonempty.mpr
      intro hsubset
      exact hsame (Finset.Subset.antisymm hlisted.subset hsubset)
    · obtain ⟨hactive, hnot⟩ := Finset.mem_sdiff.mp hm
      rw [← provenAt_eq hproven]
      exact hlisted.lost stream hactive hnot

/-! ## Requests -/

omit [DecidableEq Stream] in
theorem Plumbed.send (h : connection.Plumbed) (method : ControlMethod Stream) :
    (connection.send method).Plumbed := by
  have hpending : ∀ id response,
      (connection.send method).controller.pending id = some (some response) →
        id ≠ connection.controller.nextId ∧
          connection.controller.pending id = some (some response) := by
    intro id response heq
    by_cases hid : id = connection.controller.nextId
    · have hnew : (connection.send method).controller.pending id = some none := by
        rw [hid]
        exact Function.update_self _ _ _
      rw [hnew] at heq
      cases heq
    · refine ⟨hid, ?_⟩
      rw [← heq]
      exact (Function.update_of_ne hid _ _).symm
  refine ⟨h.fresh.send method, fun id hne => ?_, fun id response heq => ?_, h.served, h.proven,
    h.now⟩
  · show id < connection.controller.nextId + 1
    by_cases hid : id = connection.controller.nextId
    · omega
    · have hold : connection.controller.pending id ≠ none := by
        rw [← Function.update_of_ne hid (some none) connection.controller.pending]
        exact hne
      exact Nat.lt_succ_of_lt (h.pendingLt id hold)
  · obtain ⟨hid, hold⟩ := hpending id response heq
    obtain ⟨hnot, hknown⟩ := h.resolved id response hold
    refine ⟨fun hm => ?_, hknown⟩
    rcases Channel.mem_tags_send.mp hm with hm | hm
    · exact hnot hm
    · exact hid hm

theorem send_all (methods : List (ControlMethod Stream)) (connection : ControlConnection Stream)
    (h : connection.Plumbed) :
    (methods.foldl ControlConnection.send connection).Plumbed ∧
      (∃ pending, methods.foldl ControlConnection.send connection = { connection with
        controller := { connection.controller with
          nextId := connection.controller.nextId + methods.length
          pending }
        channel := { connection.channel with
          requests := connection.channel.requests ++
            (List.range' connection.controller.nextId methods.length).zip methods } }) ∧
      (methods.foldl ControlConnection.send connection).settled =
        methods.foldl ControlMethod.effect connection.settled := by
  induction methods generalizing connection with
  | nil =>
    refine ⟨h, ⟨connection.controller.pending, ?_⟩, rfl⟩
    simp
  | cons method methods ih =>
    obtain ⟨hplumbed, ⟨pending, heq⟩, hsettled⟩ := ih (connection.send method) (h.send method)
    refine ⟨hplumbed, ⟨pending, ?_⟩, ?_⟩
    · have hlength : connection.controller.nextId + (method :: methods).length =
          connection.controller.nextId + 1 + methods.length := by
        rw [List.length_cons]
        omega
      rw [List.foldl_cons, heq, hlength, List.length_cons, List.range'_succ, List.zip_cons_cons]
      unfold ControlConnection.send Channel.send
      dsimp only
      rw [List.append_assoc]
      rfl
    · rw [List.foldl_cons, hsettled, List.foldl_cons]
      congr 1
      exact Channel.settled_send ControlMethod.effect connection.subscribed

theorem Matches.effects {dropped : List (Stream × Nat)} {since : Nat}
    {expected actual : Finset Stream} (h : Matches dropped since expected actual)
    (methods : List (ControlMethod Stream)) :
    Matches dropped since (methods.foldl ControlMethod.effect expected)
      (methods.foldl ControlMethod.effect actual) := by
  induction methods generalizing expected actual with
  | nil => exact h
  | cons method methods ih => exact ih (h.effect method)

theorem methods_effect (update : SubscriptionUpdate Stream) (active : Finset Stream) :
    update.methods.foldl ControlMethod.effect active = update.apply active := by
  unfold SubscriptionUpdate.methods SubscriptionUpdate.apply
  by_cases hremove : update.remove = []
  · by_cases hadd : update.add = []
    · simp [hremove, hadd]
    · simp [hremove, hadd, ControlMethod.effect]
  · by_cases hadd : update.add = []
    · simp [hremove, hadd, ControlMethod.effect]
    · simp [hremove, hadd, ControlMethod.effect]

/-- With the lock free, the exchange will have all that is expected of it. -/
theorem Sound.free (h : connection.Sound) (hholder : connection.controller.holder = .idle) :
    (∀ entry ∈ connection.channel.requests, entry.2 = .listSubscriptions) ∧
      Matches connection.dropped connection.provenAt connection.controller.active
        connection.settled ∧
      connection.settled = connection.subscribed := by
  have hnone : connection.controller.holder.changing = [] := by
    rw [hholder]
    rfl
  have hmatches := h.settled.resolve_left (by
    rintro ⟨entry, -, -, hchanging⟩
    rw [hnone] at hchanging
    cases hchanging)
  have hintended : connection.intended = connection.controller.active := by
    unfold intended
    rw [hholder]
  rw [hintended] at hmatches
  refine ⟨fun entry hm => ?_, hmatches, h.settled_eq hnone⟩
  by_contra hne
  have hchanging := h.changing entry hm hne
  rw [hnone] at hchanging
  cases hchanging

theorem Sound.updateTaken (h : connection.Sound)
    (hholder : connection.controller.holder = .idle) (update : SubscriptionUpdate Stream) :
    (connection.sendUpdate update).Sound := by
  obtain ⟨hlists, hmatches, -⟩ := h.free hholder
  obtain ⟨hplumbed, ⟨pending, heq⟩, hsettled⟩ :=
    send_all update.methods connection h.toPlumbed
  obtain ⟨proof, hproven⟩ := h.begun (by rw [hholder]; exact nofun)
  have hafter := hmatches.effects update.methods
  rw [methods_effect, ← hsettled] at hafter
  unfold sendUpdate hold
  rw [heq] at hplumbed hafter ⊢
  refine ⟨⟨hplumbed.fresh, hplumbed.pendingLt, hplumbed.resolved, hplumbed.served,
    hplumbed.proven, hplumbed.now⟩, fun entry hm hne => ?_, .inr hafter, nofun, nofun,
    fun _ => ⟨proof, hproven⟩⟩
  rcases List.mem_append.mp hm with hm | hm
  · exact absurd (hlists entry hm) hne
  · exact (List.of_mem_zip hm).1

theorem Sound.auditSent (h : connection.Sound)
    (hholder : connection.controller.holder = .idle) :
    ((connection.send .listSubscriptions).hold (.audit connection.controller.nextId)).Sound := by
  obtain ⟨hlists, hmatches, -⟩ := h.free hholder
  have hplumbed := h.toPlumbed.send .listSubscriptions
  obtain ⟨proof, hproven⟩ := h.begun (by rw [hholder]; exact nofun)
  have hold : ∀ entry ∈ (connection.send .listSubscriptions).channel.requests,
      entry.2 = .listSubscriptions := by
    intro entry hm
    rcases List.mem_append.mp hm with hm | hm
    · exact hlists entry hm
    · rw [List.mem_singleton.mp hm]
  refine ⟨⟨hplumbed.fresh, hplumbed.pendingLt, hplumbed.resolved, hplumbed.served,
    hplumbed.proven, hplumbed.now⟩, fun entry hm hne => absurd (hold entry hm) hne, .inr ?_, nofun,
    fun id heq => ?_, fun _ => ⟨proof, hproven⟩⟩
  · have hsettled : (connection.send .listSubscriptions).settled = connection.settled :=
      Channel.settled_send ControlMethod.effect connection.subscribed
    rw [← hsettled] at hmatches
    exact hmatches
  · cases heq
    refine ⟨fun entry hm _ => hold entry hm, fun entry hm hid => ?_, fun response heq => ?_⟩
    · have hlt := h.fresh.lt entry.1 (List.mem_append_right _ (List.mem_map_of_mem hm))
      rw [hid] at hlt
      exact absurd hlt (Nat.lt_irrefl _)
    · have hnew : (connection.send .listSubscriptions).controller.pending
          connection.controller.nextId = some none := Function.update_self _ _ _
      have heq : (connection.send .listSubscriptions).controller.pending
          connection.controller.nextId = some (some response) := heq
      rw [hnew] at heq
      cases heq

theorem opened_sound (subscriptions : List Stream) (initialId : Nat) {now : Nat} (hnow : 0 < now) :
    (opened subscriptions initialId now).Sound := by
  have hplumbed : (opened subscriptions initialId now).Plumbed := by
    apply Plumbed.send
    refine ⟨⟨.nil, ?_⟩, ?_, ?_, ?_, ?_, hnow⟩
    · intro id hm
      cases hm
    · exact fun id hne => absurd rfl hne
    · exact nofun
    · intro entry hm
      cases hm
    · exact nofun
  refine ⟨hplumbed, fun entry hm _ => ?_, .inr ⟨?_, fun stream hm hnot => ?_⟩, fun id heq => .inl ?_,
    nofun, fun hnot => absurd rfl (hnot initialId)⟩
  · have hm : entry ∈ [(initialId, ControlMethod.subscribe subscriptions)] := hm
    rw [List.mem_singleton.mp hm]
    exact List.mem_cons_self
  · show ∅ ∪ subscriptions.toFinset ⊆ subscriptions.toFinset
    rw [Finset.empty_union]
  · have hnot : stream ∉ ∅ ∪ subscriptions.toFinset := hnot
    rw [Finset.empty_union] at hnot
    exact absurd hm hnot
  · cases heq
    exact ⟨subscriptions, rfl, rfl, rfl, Function.update_self _ _ _⟩

/-! ## Runs -/

/-- What a failure reports, and what is known without one. -/
structure Accounted (connection : ControlConnection Stream) : Prop where
  sound : connection.controller.failure = none → connection.Sound
  mismatch : ∀ missing unexpected affectedFrom,
    connection.controller.failure = some (.mismatch missing unexpected affectedFrom) →
      unexpected = ∅ ∧ missing.Nonempty ∧ ∃ proof, connection.controller.proven = some proof ∧
        affectedFrom = proof.observedAt ∧ proof.answer.servedAt ≤ proof.observedAt ∧
        ∀ stream ∈ missing, LostSince connection.dropped proof.answer.servedAt stream

theorem Sound.accounted (h : connection.Sound) (hopen : connection.controller.failure = none) :
    connection.Accounted := by
  refine ⟨fun _ => h, fun missing unexpected affectedFrom heq => ?_⟩
  rw [hopen] at heq
  cases heq

theorem accounted_failed {failure : ControlFailure Stream}
    (h : connection.controller.failure = some failure)
    (hnot : ∀ missing unexpected affectedFrom, failure ≠ .mismatch missing unexpected affectedFrom) :
    connection.Accounted := by
  refine ⟨fun heq => ?_, fun missing unexpected affectedFrom heq => ?_⟩
  · rw [h] at heq
    cases heq
  · rw [h] at heq
    exact absurd (Option.some.inj heq) (hnot missing unexpected affectedFrom)

theorem Turn.accounted (hturn : Turn threshold connection event next)
    (hopen : connection.controller.failure = none) (h : connection.Sound) : next.Accounted := by
  cases hturn with
  | waited hle => exact (h.waited hle).accounted hopen
  | dropped hm => exact h.dropped.accounted hopen
  | served hrequests hresult => exact (h.requestServed hrequests hresult).accounted hopen
  | refused hrequests => exact (h.requestRefused hrequests).accounted hopen
  | @delivered id answer answers hanswers =>
    cases hcode : answer.code with
    | true =>
      apply accounted_failed
      · unfold SubscriptionController.deliver
        dsimp only
        rw [if_pos hcode]
      · exact nofun
    | false =>
      apply (h.answerDelivered hanswers hcode).accounted
      dsimp only
      rw [deliver_eq _ _ _ hcode]
      exact hopen
  | @initialCompleted id response hholder hresponse =>
    have hsound := h.initialCompleted hholder hresponse
    cases hfailure : (connection.controller.completeInitial id response).failure with
    | none => exact hsound.accounted hfailure
    | some failure =>
      apply accounted_failed hfailure
      unfold SubscriptionController.completeInitial at hfailure
      split at hfailure
      · have hfailure : connection.controller.failure = some failure := hfailure
        rw [hopen] at hfailure
        cases hfailure
      · cases hfailure
        exact nofun
  | updateTaken hholder =>
    apply (h.updateTaken hholder _).accounted
    obtain ⟨-, ⟨pending, heq⟩, -⟩ := send_all _ connection h.toPlumbed
    unfold sendUpdate hold
    rw [heq]
    exact hopen
  | updateAcknowledged hholder hresponses =>
    exact (h.updateAcknowledged hholder hresponses).accounted hopen
  | auditSent hholder => exact (h.auditSent hholder).accounted hopen
  | @auditAnswered id response hholder hresponse =>
    rcases h.auditAnswered hholder hresponse hopen with ⟨hnone, hsound⟩ | hfound
    · exact hsound.accounted hnone
    · obtain ⟨proof, missing, hproven, hfailure, hnonempty, hlost⟩ := hfound
      refine ⟨fun heq => ?_, fun missing' unexpected affectedFrom heq => ?_⟩
      · have heq : (connection.controller.validateAudit id response).failure = none := heq
        rw [hfailure] at heq
        cases heq
      · have heq : (connection.controller.validateAudit id response).failure =
            some (.mismatch missing' unexpected affectedFrom) := heq
        rw [hfailure] at heq
        cases heq
        refine ⟨rfl, hnonempty, proof, ?_, rfl, (h.proven proof hproven).served, hlost⟩
        unfold SubscriptionController.validateAudit at hfailure ⊢
        dsimp only at hfailure ⊢
        split at hfailure
        · rename_i hsame
          have hfailure : connection.controller.failure = some _ := hfailure
          rw [hopen] at hfailure
          cases hfailure
        · rename_i hsame
          rw [if_neg hsame]
          exact hproven
  | auditMissed hholder =>
    unfold SubscriptionController.missAudit
    by_cases hmissed : threshold ≤ connection.controller.failures + 1
    · apply accounted_failed
      · dsimp only
        rw [if_pos hmissed]
      · exact nofun
    · apply (h.auditMissed hholder).accounted
      dsimp only
      rw [if_neg hmissed]

/-- For every order of updates, audits, answers, missed answers, refusals and losses: an audit that
fails has found streams that the exchange has lost since it sent the last answer that proved it to
have everything, and it reports the time at which that answer was observed. As long as nothing has
failed, the exchange has, whenever no update is at work, what it is expected to have, except for
losses since that proof. -/
theorem run_audited {subscriptions : List Stream} {initialId now : Nat} (hnow : 0 < now)
    {events : List (ControlEvent Stream)}
    (hrun : Run (Step threshold) (opened subscriptions initialId now) events connection) :
    (∀ missing unexpected affectedFrom,
      connection.controller.failure = some (.mismatch missing unexpected affectedFrom) →
        unexpected = ∅ ∧ missing.Nonempty ∧ ∃ proof, connection.controller.proven = some proof ∧
          affectedFrom = proof.observedAt ∧ proof.answer.servedAt ≤ proof.observedAt ∧
          ∀ stream ∈ missing, LostSince connection.dropped proof.answer.servedAt stream) ∧
    (connection.controller.failure = none →
      (connection.controller.holder = .idle ∨ ∃ id, connection.controller.holder = .audit id) →
        Matches connection.dropped connection.provenAt connection.controller.active
          connection.subscribed) := by
  have haccounted : connection.Accounted := hrun.preserves
    (fun h hstep => hstep.2.accounted hstep.1 (h.sound hstep.1))
    ((opened_sound subscriptions initialId hnow).accounted rfl)
  refine ⟨haccounted.mismatch, fun hopen hholder => ?_⟩
  have hsound := haccounted.sound hopen
  rcases hholder with hidle | ⟨id, haudit⟩
  · obtain ⟨-, hmatches, heq⟩ := hsound.free hidle
    rw [heq] at hmatches
    exact hmatches
  · exact (hsound.audited haudit).2.2

/-- The exchange loses one of two streams behind an audit, and the next audit finds it. -/
def lostEvents : List (ControlEvent Nat) :=
  [.served, .delivered, .initialCompleted, .auditSent, .served, .delivered, .auditAnswered, .waited 9,
    .dropped 2, .auditSent, .served, .delivered, .auditAnswered]

theorem run_audited_lost : ∃ connection,
    Run (Step 3) (opened [1, 2] 70 5) lostEvents connection ∧
      connection.controller.failure = some (.mismatch {2} ∅ 5) ∧
      ∃ proof, connection.controller.proven = some proof ∧
        LostSince connection.dropped proof.answer.servedAt 2 := by
  have hrun : ∃ connection, Run (Step 3) (opened [1, 2] 70 5) lostEvents connection ∧
      connection.controller.failure = some (.mismatch {2} ∅ 5) := by
    refine ⟨?_, ?_, ?_⟩
    rotate_left
    · apply Run.cons ⟨rfl, .served rfl (.subscribe [1, 2])⟩
      apply Run.cons ⟨rfl, .delivered rfl⟩
      apply Run.cons ⟨rfl, .initialCompleted rfl rfl⟩
      apply Run.cons ⟨rfl, .auditSent rfl⟩
      apply Run.cons ⟨rfl, .served rfl (@ControlMethod.Answers.listSubscriptions _ _ _ [1, 2] rfl)⟩
      apply Run.cons ⟨rfl, .delivered rfl⟩
      apply Run.cons ⟨rfl, .auditAnswered rfl rfl⟩
      apply Run.cons ⟨rfl, .waited (by decide)⟩
      apply Run.cons ⟨rfl, .dropped (by decide)⟩
      apply Run.cons ⟨rfl, .auditSent rfl⟩
      apply Run.cons ⟨rfl, .served rfl (@ControlMethod.Answers.listSubscriptions _ _ _ [1] rfl)⟩
      apply Run.cons ⟨rfl, .delivered rfl⟩
      apply Run.cons ⟨rfl, .auditAnswered rfl rfl⟩
      exact .nil _
    · rfl
  obtain ⟨connection, hrun, hfailure⟩ := hrun
  obtain ⟨-, -, proof, hproven, -, -, hlost⟩ :=
    (run_audited (by decide) hrun).1 _ _ _ hfailure
  exact ⟨connection, hrun, hfailure, proof, hproven, hlost 2 (by decide)⟩

end ControlConnection

end MiryFormal
