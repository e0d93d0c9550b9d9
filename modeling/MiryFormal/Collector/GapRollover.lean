import MiryFormal.Collector.GapJournal
import MiryFormal.Shared.Runs
import Mathlib.Data.List.Pairwise

/-!
# Rollovers among other calls

Calls of the journal run as tasks over the same files, one operation at a time. A call that
has seen a gap in the directory goes on to use its state file: the rollover for every gap
it listed, `close` for its own gap. As long as no other call removes the file in between,
the directory always holds the gaps whose `open` and no `close` has returned.
-/

namespace MiryFormal

set_option autoImplicit false

open Program

namespace JournalOp

/-- A look at the directory of open gaps. -/
def LooksUp : JournalOp → Prop
  | listOpenGaps | stateExists _ => True
  | _ => False

/-- The operation takes the gap for an open one: it reads its state file, publishes it as
OPEN, or writes its state file. -/
def Uses (gapId : String) : JournalOp → Prop
  | readState id => id = gapId
  | writeManifest name => name.gapId = gapId ∧ name.state = .opened
  | writeState event => event.gapId = gapId
  | _ => False

def WritesState : JournalOp → Prop
  | writeState _ => True
  | _ => False

end JournalOp

/-- The task uses the gap before it looks at the directory again. -/
def StillUses (task : Journal Unit) (gapId : String) : Prop :=
  task.Reaches JournalOp.LooksUp (JournalOp.Uses gapId)

/-- No day behind the one on which the gap is open is sealed. -/
def OpenBehind (sealedDays : List Int) (event : GapEvent) : Prop :=
  ∀ day ∈ sealedDays, day ≤ (event.openedDate : Int)

abbrev JournalPool := Pool JournalOp JournalOp.Answer String GapFiles JournalCall

namespace JournalPool

def start (initial : GapFiles) : JournalPool := { store := initial }

def step (pool : JournalPool) (event : PoolEvent JournalCall) : Option JournalPool :=
  Pool.step JournalOp.run JournalCall.program pool event

def Returned (pool : JournalPool) (call : JournalCall) : Prop := (call, ret ()) ∈ pool.tasks

/-- The gap was open at the start, or its `open` has returned. -/
def Opened (initial : GapFiles) (pool : JournalPool) (gapId : String) : Prop :=
  initial.openGaps.read gapId ≠ none ∨ ∃ call, call.Opens gapId ∧ pool.Returned call

/-- A `close` of the gap has returned. -/
def Closed (pool : JournalPool) (gapId : String) : Prop :=
  ∃ call, call.Closes gapId ∧ pool.Returned call

/-- The calls that the collector makes. Gap ids are new, and known to their owners when
`open` has returned; one rollover runs at a time. -/
def CanStart (initial : GapFiles) (pool : JournalPool) : PoolEvent JournalCall → Prop
  | .start (.openGap event _) => initial.openGaps.read event.gapId = none ∧
      ∀ task ∈ pool.tasks, ¬ task.1.Opens event.gapId
  | .start (.closeGap event _) => pool.Opened initial event.gapId
  | .start (.rollover _) => ∀ task ∈ pool.tasks, ∀ boundary, task.1 = .rollover boundary →
      ∀ op next, task.2 ≠ .call op next
  | .advance _ => True

/-- No task removes the state file of a gap that another one still uses, and no gap is opened
behind a sealed day. -/
def Harmless (initial : GapFiles) (pool : JournalPool) : PoolEvent JournalCall → Prop
  | .advance i => ∀ call gapId next, pool.tasks[i]? = some (call, .call (.removeState gapId) next) →
      ∀ task ∈ pool.tasks, ¬ StillUses task.2 gapId
  | .start (.openGap event _) => OpenBehind initial.sealedDays event
  | .start _ => True

/-- A step of the collector. -/
def Step (initial : GapFiles) (pool : JournalPool) (event : PoolEvent JournalCall)
    (pool' : JournalPool) : Prop :=
  pool.CanStart initial event ∧ pool.step event = some pool'

/-! ## What the claim is about -/

/-- No rollover has raised. -/
def RolloversReturn (pool : JournalPool) : Prop :=
  ∀ boundary e, (JournalCall.rollover boundary, raise e) ∉ pool.tasks

/-- The directory holds the gaps that are opened and not yet closed. -/
def DirectoryExact (initial : GapFiles) (pool : JournalPool) : Prop :=
  ∀ gapId, pool.store.openGaps.read gapId ≠ none ↔ pool.Opened initial gapId ∧ ¬ pool.Closed gapId

def openEvents (pool : JournalPool) (gapId : String) : List ArtifactName :=
  pool.store.manifests.filter fun name => name.gapId = gapId ∧ name.state = .opened

/-- From `pool` to `later` no OPEN event is published for a gap that is closed in `pool`. -/
def NoLateOpen (pool later : JournalPool) : Prop :=
  ∀ gapId, pool.Closed gapId → later.openEvents gapId = pool.openEvents gapId

end JournalPool

/-! ## The shapes of the programs -/

/-- The answers while these days are sealed and no state file lies before one. -/
def Plausible (sealedDays : List Int) : (op : JournalOp) → op.Answer → Prop
  | .daySealed utcDate, isSealed => isSealed = decide (utcDate ∈ sealedDays)
  | .readState _, opened => OpenBehind sealedDays opened.val
  | _, _ => True

/-- State files are written for days behind the sealed ones. -/
def WritesBehind (sealedDays : List Int) : JournalOp → Prop
  | .writeState event => OpenBehind sealedDays event
  | _ => True

namespace Journal

variable {sealedDays : List Int}

theorem obeys_publish (event : GapEvent) {fails : Prop}
    (hfails : event.utcDate ∈ sealedDays → fails) :
    (publish event).Obeys (Plausible sealedDays) (WritesBehind sealedDays) fails := by
  refine ⟨trivial, fun isSealed hsealed => ?_⟩
  cases isSealed with
  | true => exact hfails (of_decide_eq_true (Eq.symm hsealed))
  | false => exact ⟨trivial, fun _ _ => ⟨trivial, fun _ _ => ⟨trivial, fun _ _ => trivial⟩⟩⟩

theorem obeys_rollDays (opened : GapEvent) {day : Nat} (count : Nat)
    (hday : ∀ sealedDay ∈ sealedDays, sealedDay ≤ (day : Int)) :
    (rollDays opened day count).Obeys (Plausible sealedDays) (WritesBehind sealedDays) False := by
  induction count generalizing opened day with
  | zero => trivial
  | succ count ih =>
    have hclose : (closeDay opened day).Obeys (Plausible sealedDays) (WritesBehind sealedDays)
        False := by
      refine ⟨trivial, fun isSealed hsealed => ?_⟩
      cases isSealed with
      | true => trivial
      | false =>
        refine obeys_publish (opened.closedAtEndOf day) fun hm => ?_
        rw [GapEvent.closedAtEndOf_utcDate] at hm
        exact of_decide_eq_false (Eq.symm hsealed) hm
    have hopen : (publish (opened.reopenedAt (day + 1))).Obeys (Plausible sealedDays)
        (WritesBehind sealedDays) False := by
      refine obeys_publish _ fun hm => ?_
      have := hday _ hm
      rw [GapEvent.reopenedAt_utcDate] at this
      omega
    have hnext : ∀ sealedDay ∈ sealedDays, sealedDay ≤ ((day + 1 : Nat) : Int) := by
      intro sealedDay hm
      have := hday sealedDay hm
      omega
    refine hclose.bind fun _ => hopen.bind fun _ => ⟨?_, fun _ _ => ih _ hnext⟩
    intro sealedDay hm
    rw [GapEvent.reopenedAt_openedDate]
    exact hnext sealedDay hm

theorem obeys_rollStateTo (gapId : String) (targetDate : Int) :
    (rollStateTo gapId targetDate).Obeys (Plausible sealedDays) (WritesBehind sealedDays) False :=
  ⟨trivial, fun opened hopened => obeys_rollDays opened.val _ hopened⟩

theorem stillUses_rollStateTo {gapId id : String} {targetDate : Int}
    (h : StillUses (rollStateTo id targetDate) gapId) : id = gapId := by
  obtain ⟨op, hop, huses⟩ := Reaches.exists_hit h (each_rollStateTo id targetDate)
  cases op <;> simp_all [JournalOp.OfGap, JournalOp.Uses]

/-- What is left of `close` after its look at the directory. -/
def closeFrom (event : GapEvent) (isOpen : Bool) : Journal Unit :=
  (if isOpen then rollStateTo event.gapId (utcDateOf event.observedAtRealtimeNs) else ret ()) >>=
    fun _ => publish event >>= fun _ => perform (JournalOp.removeState event.gapId)

section CloseFrom
variable (event : GapEvent) (isOpen : Bool)

theorem each_closeFrom : (closeFrom event isOpen).Each fun op =>
    op.OfGap event.gapId ∨ op = .removeState event.gapId := by
  refine Obeys.bind ?_ fun _ => ((each_publish event).mono (fun _ hop => .inl hop) id).bind
    fun _ => ⟨.inr rfl, fun _ _ => trivial⟩
  cases isOpen with
  | true => exact (each_rollStateTo _ _).mono (fun _ hop => .inl hop) id
  | false => trivial

theorem obeys_closeFrom : (closeFrom event isOpen).Obeys (Plausible sealedDays)
    (WritesBehind sealedDays) True := by
  refine Obeys.bind ?_ fun _ => (obeys_publish event fun _ => trivial).bind fun _ =>
    ⟨trivial, fun _ _ => trivial⟩
  cases isOpen with
  | true => exact (obeys_rollStateTo _ _).mono (fun _ hop => hop) fun _ => trivial
  | false => trivial

theorem ends_closeFrom : (closeFrom event isOpen).Ends (· = .removeState event.gapId) := by
  have hne : ∀ op : JournalOp, op.OfGap event.gapId → op ≠ .removeState event.gapId := by
    rintro op hop rfl
    exact hop
  refine Ends.bind ?_ fun _ => Ends.bind ((each_publish event).mono hne id) fun _ =>
    .inl ⟨rfl, fun _ => ⟨(), rfl⟩⟩
  cases isOpen with
  | true => exact (each_rollStateTo _ _).mono hne id
  | false => trivial

variable {event isOpen}

/-- Of a `close`, only the roll of an open gap uses the gap. -/
theorem stillUses_closeFrom (hclosed : event.state = .closed) {gapId : String}
    (h : StillUses (closeFrom event isOpen) gapId) : isOpen = true ∧ event.gapId = gapId := by
  rcases Reaches.bind h with h | ⟨-, h⟩
  · cases isOpen with
    | true => exact ⟨rfl, stillUses_rollStateTo h⟩
    | false => simp [Reaches] at h
  · rcases Reaches.bind h with h | ⟨-, h⟩
    · have hpublish : (publish event).Each fun op => ¬ op.Uses gapId := by
        refine ⟨id, fun isSealed _ => ?_⟩
        cases isSealed with
        | true => trivial
        | false =>
          refine ⟨id, fun _ _ => ⟨fun huses => ?_, fun _ _ => ⟨id, fun _ _ => trivial⟩⟩⟩
          have hstate : event.state = .opened := huses.2
          rw [hclosed] at hstate
          cases hstate
      obtain ⟨op, hop, huses⟩ := Reaches.exists_hit h hpublish
      exact absurd huses hop
    · simp [perform, Reaches, JournalOp.Uses] at h

end CloseFrom

theorem obeys_openGap {event : GapEvent} (hbehind : OpenBehind sealedDays event) :
    (openGap event).Obeys (Plausible sealedDays) (WritesBehind sealedDays) True :=
  (obeys_publish event fun _ => trivial).bind fun _ => ⟨hbehind, fun _ _ => trivial⟩

theorem ends_openGap (event : GapEvent) : (openGap event).Ends JournalOp.WritesState := by
  refine Ends.bind ⟨id, fun isSealed _ => ?_⟩ fun _ => .inl ⟨trivial, fun _ => ⟨(), rfl⟩⟩
  cases isSealed with
  | true => trivial
  | false => exact ⟨id, fun _ _ => ⟨id, fun _ _ => ⟨id, fun _ _ => trivial⟩⟩⟩

end Journal

/-! ## The invariant -/

/-- What is known of the rest of a call that has looked at the directory. -/
def InShape (sealedDays : List Int) : JournalCall → Journal Unit → Prop
  | .openGap event _, task => task.Each (JournalOp.OfGap event.gapId) ∧
      task.Obeys (Plausible sealedDays) (WritesBehind sealedDays) True ∧
      task.Ends JournalOp.WritesState
  | .closeGap event _, task => (task.Each fun op =>
        op.OfGap event.gapId ∨ op = .removeState event.gapId) ∧
      task.Obeys (Plausible sealedDays) (WritesBehind sealedDays) True ∧
      task.Ends (· = .removeState event.gapId)
  | .rollover _, task => (task.Each fun op => ∃ gapId, op.OfGap gapId) ∧
      task.Obeys (Plausible sealedDays) (WritesBehind sealedDays) False

/-- A task has not yet looked at the directory, is in its shape, or has returned. -/
def TaskOk (sealedDays : List Int) (task : JournalCall × Journal Unit) : Prop :=
  (task.2 = task.1.program ∧ ∀ gapId, ¬ task.1.Opens gapId) ∨
    InShape sealedDays task.1 task.2 ∨ task.2 = ret ()

namespace JournalPool

structure Sound (initial : GapFiles) (pool : JournalPool) : Prop where
  sealedDays : pool.store.sealedDays = initial.sealedDays
  behind : ∀ gapId event, pool.store.openGaps.read gapId = some event →
    OpenBehind initial.sealedDays event
  tasks : ∀ task ∈ pool.tasks, TaskOk initial.sealedDays task
  exact : pool.DirectoryExact initial
  used : ∀ task ∈ pool.tasks, (∀ gapId, ¬ task.1.Opens gapId) → ∀ gapId,
    StillUses task.2 gapId → pool.store.openGaps.read gapId ≠ none
  known : ∀ task ∈ pool.tasks, ∀ gapId, task.1.Closes gapId → pool.Opened initial gapId
  fresh : ∀ task ∈ pool.tasks, ∀ gapId, task.1.Opens gapId →
    initial.openGaps.read gapId = none
  distinct : (pool.tasks.map Prod.fst).Pairwise fun a b => ∀ gapId, a.Opens gapId → ¬ b.Opens gapId

variable {initial : GapFiles} {pool pool' : JournalPool}

theorem program_eq_call (call : JournalCall) :
    ∃ op next, call.program = Program.call op next := by
  cases call <;> exact ⟨_, _, rfl⟩

/-- A task that moves returns its call, or leaves the returned calls as they are. -/
theorem returned_set {store : GapFiles} {i : Nat} {label : JournalCall} {op : JournalOp}
    {next : op.Answer → Journal Unit} {task : Journal Unit}
    (hold : pool.tasks[i]? = some (label, .call op next)) {call : JournalCall} :
    Returned { store, tasks := pool.tasks.set i (label, task) } call ↔
      pool.Returned call ∨ (call = label ∧ task = ret ()) := by
  constructor
  · intro hm
    rcases List.mem_or_eq_of_mem_set hm with hm | heq
    · exact .inl hm
    · cases heq
      exact .inr ⟨rfl, rfl⟩
  · rintro (hm | ⟨rfl, rfl⟩)
    · exact Pool.mem_set_of_ne hold (by simp) hm
    · exact List.mem_set (List.getElem?_eq_some_iff.mp hold).1 _

theorem opened_set {store : GapFiles} {i : Nat} {label : JournalCall} {op : JournalOp}
    {next : op.Answer → Journal Unit} {task : Journal Unit}
    (hold : pool.tasks[i]? = some (label, .call op next)) {gapId : String} :
    Opened initial { store, tasks := pool.tasks.set i (label, task) } gapId ↔
      pool.Opened initial gapId ∨ (label.Opens gapId ∧ task = ret ()) := by
  simp only [Opened, returned_set hold]
  constructor
  · rintro (hinitial | ⟨call, hcall, hreturned | ⟨rfl, hret⟩⟩)
    · exact .inl (.inl hinitial)
    · exact .inl (.inr ⟨call, hcall, hreturned⟩)
    · exact .inr ⟨hcall, hret⟩
  · rintro ((hinitial | ⟨call, hcall, hreturned⟩) | ⟨hlabel, hret⟩)
    · exact .inl hinitial
    · exact .inr ⟨call, hcall, .inl hreturned⟩
    · exact .inr ⟨label, hlabel, .inr ⟨rfl, hret⟩⟩

theorem closed_set {store : GapFiles} {i : Nat} {label : JournalCall} {op : JournalOp}
    {next : op.Answer → Journal Unit} {task : Journal Unit}
    (hold : pool.tasks[i]? = some (label, .call op next)) {gapId : String} :
    Closed { store, tasks := pool.tasks.set i (label, task) } gapId ↔
      pool.Closed gapId ∨ (label.Closes gapId ∧ task = ret ()) := by
  simp only [Closed, returned_set hold]
  constructor
  · rintro ⟨call, hcall, hreturned | ⟨rfl, hret⟩⟩
    · exact .inl ⟨call, hcall, hreturned⟩
    · exact .inr ⟨hcall, hret⟩
  · rintro (⟨call, hcall, hreturned⟩ | ⟨hlabel, hret⟩)
    · exact ⟨call, hcall, .inl hreturned⟩
    · exact ⟨label, hlabel, .inr ⟨rfl, hret⟩⟩

/-! ## One step -/

open Journal

/-- An open gap's id belongs to no gap that is open already. -/
theorem Sound.not_opened (h : Sound initial pool) {i : Nat} {event : GapEvent}
    {state : event.state = .opened} {op : JournalOp} {next : op.Answer → Journal Unit}
    (hold : pool.tasks[i]? = some (.openGap event state, .call op next)) :
    ¬ pool.Opened initial event.gapId := by
  have hm := List.mem_of_getElem? hold
  rintro (hinitial | ⟨call, hcall, hreturned⟩)
  · exact hinitial (h.fresh _ hm event.gapId ⟨event, state, rfl, rfl⟩)
  · have hpairs : pool.tasks.Pairwise fun a b => ∀ gapId, a.1.Opens gapId → ¬ b.1.Opens gapId :=
      List.pairwise_map.mp h.distinct
    have hne : (JournalCall.openGap event state, Program.call op next) ≠ (call, ret ()) := by simp
    have hsymm : Std.Symm fun a b : JournalCall × Journal Unit =>
        ∀ gapId, a.1.Opens gapId → ¬ b.1.Opens gapId :=
      ⟨fun a b hab gapId hb ha => hab gapId ha hb⟩
    exact hpairs.forall hm hreturned hne event.gapId ⟨event, state, rfl, rfl⟩ hcall

/-- The facts about a task that moves. -/
structure Moved (initial : GapFiles) (pool : JournalPool) (label : JournalCall) (op : JournalOp)
    (task : Journal Unit) : Prop where
  ok : InShape initial.sealedDays label task ∨ task = ret ()
  behind : WritesBehind initial.sealedDays op
  exact : ∀ gapId, op.readAfter pool.store gapId ≠ none ↔
    (pool.Opened initial gapId ∨ (label.Opens gapId ∧ task = ret ())) ∧
      ¬ (pool.Closed gapId ∨ (label.Closes gapId ∧ task = ret ()))
  used : (∀ gapId, ¬ label.Opens gapId) → ∀ gapId, StillUses task gapId →
    op.readAfter pool.store gapId ≠ none

/-- An operation of a roll or a publication changes no state file but that of an open gap. -/
theorem readAfter_of_used {files : GapFiles} {op : JournalOp} {id : String} (hop : op.OfGap id)
    (hwrites : op.Uses id → files.openGaps.read id ≠ none) (gapId : String) :
    op.readAfter files gapId ≠ none ↔ files.openGaps.read gapId ≠ none := by
  cases op with
  | writeState event =>
    have hid : event.gapId = id := hop
    by_cases heq : event.gapId = gapId
    · simp only [JournalOp.readAfter, if_pos heq]
      exact iff_of_true (Option.some_ne_none _) (heq ▸ hid ▸ hwrites hid)
    · simp [JournalOp.readAfter, heq]
  | removeState removed => exact False.elim hop
  | _ => exact Iff.rfl

/-- What an operation answers can be true of the files. -/
theorem Sound.answered (h : Sound initial pool) {op : JournalOp} {answer : op.Answer}
    {store : GapFiles} (hrun : op.run pool.store = .ok (answer, store)) :
    Plausible initial.sealedDays op answer := by
  cases op with
  | daySealed utcDate =>
    cases hrun
    change decide _ = decide _
    rw [h.sealedDays]
  | readState gapId => exact h.behind gapId _ (JournalOp.run_readState hrun).2
  | _ => trivial

theorem opens_openGap {event : GapEvent} {state : event.state = .opened} {gapId : String} :
    (JournalCall.openGap event state).Opens gapId ↔ event.gapId = gapId := by
  constructor
  · rintro ⟨event', state', heq, rfl⟩
    cases heq
    rfl
  · intro hid
    exact ⟨event, state, rfl, hid⟩

theorem closes_closeGap {event : GapEvent} {state : event.state = .closed} {gapId : String} :
    (JournalCall.closeGap event state).Closes gapId ↔ event.gapId = gapId := by
  constructor
  · rintro ⟨event', state', heq, rfl⟩
    cases heq
    rfl
  · intro hid
    exact ⟨event, state, rfl, hid⟩

/-- A move that returns no open or close and makes or removes no state file. -/
theorem Sound.exact_of_same (h : Sound initial pool) {label : JournalCall} {op : JournalOp}
    {task : Journal Unit} (hlabel : ∀ gapId, label.Opens gapId ∨ label.Closes gapId → task ≠ ret ())
    (hread : ∀ gapId, op.readAfter pool.store gapId ≠ none ↔
      pool.store.openGaps.read gapId ≠ none) (gapId : String) :
    op.readAfter pool.store gapId ≠ none ↔
      (pool.Opened initial gapId ∨ (label.Opens gapId ∧ task = ret ())) ∧
        ¬ (pool.Closed gapId ∨ (label.Closes gapId ∧ task = ret ())) := by
  have hopens : ¬ (label.Opens gapId ∧ task = ret ()) := fun ⟨ho, hret⟩ =>
    hlabel gapId (.inl ho) hret
  have hcloses : ¬ (label.Closes gapId ∧ task = ret ()) := fun ⟨hc, hret⟩ =>
    hlabel gapId (.inr hc) hret
  rw [hread, h.exact, or_iff_left hopens, or_iff_left hcloses]

theorem ne_ret_of_ends {fin : JournalOp → Prop} {task : Journal Unit} (h : task.Ends fin) :
    task ≠ ret () := by
  rintro rfl
  exact h

/-- The uses of a task that moves and has seen its gaps are covered by those before. -/
theorem Sound.used_after (h : Sound initial pool) {i : Nat} {op : JournalOp}
    {next : op.Answer → Journal Unit} (answer : op.Answer) {label : JournalCall} {id : String}
    (hold : pool.tasks[i]? = some (label, .call op next)) (hop : op.OfGap id)
    (hopens : ∀ gapId, ¬ label.Opens gapId) {gapId : String} :
    (op.readAfter pool.store gapId ≠ none ↔ pool.store.openGaps.read gapId ≠ none) ∧
      (StillUses (next answer) gapId → pool.store.openGaps.read gapId ≠ none) := by
  have hused := h.used _ (List.mem_of_getElem? hold) hopens
  refine ⟨readAfter_of_used hop (fun huses => hused id (.inl huses)) gapId, fun huses => ?_⟩
  refine hused gapId (.inr ⟨fun hlooks => ?_, answer, huses⟩)
  cases op <;> first | exact hop | exact hlooks

section Moved
variable (h : Sound initial pool) {i : Nat} {op : JournalOp}
  {next : op.Answer → Journal Unit} {answer : op.Answer} {store : GapFiles}
  (hrun : op.run pool.store = .ok (answer, store))
include h hrun

theorem Sound.moved_openGap {event : GapEvent} {state : event.state = .opened}
    (hold : pool.tasks[i]? = some (.openGap event state, .call op next)) :
    Moved initial pool (.openGap event state) op (next answer) := by
  have hnew := h.not_opened hold
  have hclosed : ¬ pool.Closed event.gapId := by
    rintro ⟨call, hcall, hreturned⟩
    exact hnew (h.known _ hreturned event.gapId hcall)
  have hopen : (JournalCall.openGap event state).Opens event.gapId := opens_openGap.mpr rfl
  rcases h.tasks _ (List.mem_of_getElem? hold) with ⟨-, hnone⟩ | hshape | hret
  · exact absurd hopen (hnone event.gapId)
  · obtain ⟨⟨hop, heach⟩, ⟨hbehind, hobeys⟩, hends⟩ := hshape
    rcases hends with ⟨hwrites, hret⟩ | ⟨hwrites, hends⟩
    · -- The state file is written, and the call returns.
      obtain ⟨a, ha⟩ := hret answer
      refine ⟨.inr ha, hbehind, fun gapId => ?_, fun hnone => absurd hopen (hnone _)⟩
      have hcloses : ¬ (JournalCall.openGap event state).Closes gapId := by
        rintro ⟨event', state', heq, -⟩
        cases heq
      cases op with
      | writeState written =>
        have hid : written.gapId = event.gapId := hop
        by_cases heq : event.gapId = gapId
        · subst heq
          simp [JournalOp.readAfter, hid, ha, hclosed, hopen, hcloses]
        · have hopens : ¬ (JournalCall.openGap event state).Opens gapId := fun ho =>
            heq (opens_openGap.mp ho)
          simp [JournalOp.readAfter, hid, heq, hopens, hcloses, h.exact gapId]
      | _ => exact False.elim hwrites
    · refine ⟨.inl ⟨heach answer trivial, hobeys answer (h.answered hrun), hends answer⟩,
        hbehind, h.exact_of_same (fun _ _ => ne_ret_of_ends (hends answer)) fun gapId => ?_,
        fun hnone => absurd hopen (hnone _)⟩
      cases op with
      | writeState written => exact absurd trivial hwrites
      | removeState removed => exact False.elim hop
      | _ => exact Iff.rfl
  · cases hret

theorem Sound.moved_closeGap {event : GapEvent} {state : event.state = .closed}
    (hold : pool.tasks[i]? = some (.closeGap event state, .call op next)) :
    Moved initial pool (.closeGap event state) op (next answer) := by
  have hopens : ∀ gapId, ¬ (JournalCall.closeGap event state).Opens gapId := by
    rintro gapId ⟨event', state', heq, -⟩
    cases heq
  rcases h.tasks _ (List.mem_of_getElem? hold) with ⟨hstart, -⟩ | hshape | hret
  · -- The look at the directory.
    cases hstart
    cases hrun
    have hends := ends_closeFrom event (pool.store.openGaps.read event.gapId).isSome
    refine ⟨.inl ⟨each_closeFrom event _, obeys_closeFrom event _, hends⟩, trivial,
      h.exact_of_same (fun _ _ => ne_ret_of_ends hends) fun _ => Iff.rfl, fun _ gapId huses => ?_⟩
    obtain ⟨hopen, rfl⟩ := stillUses_closeFrom state huses
    exact Option.isSome_iff_ne_none.mp hopen
  · obtain ⟨⟨hop, heach⟩, ⟨hbehind, hobeys⟩, hends⟩ := hshape
    rcases hends with ⟨rfl, hret⟩ | ⟨hkeeps, hends⟩
    · -- The state file is removed, and the call returns.
      obtain ⟨a, ha⟩ := hret answer
      refine ⟨.inr ha, trivial, fun gapId => ?_, fun _ gapId huses => ?_⟩
      · by_cases heq : event.gapId = gapId
        · have hcloses : (JournalCall.closeGap event state).Closes gapId := closes_closeGap.mpr heq
          simp [JournalOp.readAfter, heq, hcloses, ha]
        · have hcloses : ¬ (JournalCall.closeGap event state).Closes gapId := fun hc =>
            heq (closes_closeGap.mp hc)
          simp [JournalOp.readAfter, heq, hcloses, hopens, h.exact gapId]
      · rw [ha] at huses
        exact absurd huses id
    · have hofGap : op.OfGap event.gapId := hop.resolve_right hkeeps
      refine ⟨.inl ⟨heach answer trivial, hobeys answer (h.answered hrun), hends answer⟩,
        hbehind, h.exact_of_same (fun _ _ => ne_ret_of_ends (hends answer)) fun gapId =>
          (h.used_after answer hold hofGap hopens).1, fun _ gapId huses => ?_⟩
      obtain ⟨hsame, hused⟩ := h.used_after answer hold hofGap hopens
      exact hsame.mpr (hused huses)
  · cases hret

theorem Sound.moved_rollover {boundary : Int}
    (hold : pool.tasks[i]? = some (.rollover boundary, .call op next)) :
    Moved initial pool (.rollover boundary) op (next answer) := by
  have hlabel : ∀ gapId, ¬ ((JournalCall.rollover boundary).Opens gapId ∨
      (JournalCall.rollover boundary).Closes gapId) := by
    rintro gapId (⟨event, state, heq, -⟩ | ⟨event, state, heq, -⟩) <;> cases heq
  have hopens := fun gapId ho => hlabel gapId (.inl ho)
  rcases h.tasks _ (List.mem_of_getElem? hold) with ⟨hstart, -⟩ | hshape | hret
  · -- The listing.
    cases hstart
    cases hrun
    refine ⟨.inl ⟨Obeys.forM fun gapId _ => ?_, Obeys.forM fun gapId _ => ?_⟩, trivial,
      h.exact_of_same (fun gapId hl => absurd hl (hlabel gapId)) fun _ => Iff.rfl,
      fun _ gapId huses => ?_⟩
    · exact (each_rollStateTo gapId boundary).mono (fun op hop => ⟨gapId, hop⟩) id
    · exact obeys_rollStateTo gapId boundary
    · obtain ⟨id, hlisted, huses⟩ := Reaches.forM huses
      rw [← stillUses_rollStateTo huses]
      exact EventFiles.mem_names.mp (JournalOp.mem_sortedNames.mp hlisted)
  · obtain ⟨⟨⟨id, hop⟩, heach⟩, ⟨hbehind, hobeys⟩⟩ := hshape
    refine ⟨.inl ⟨heach answer trivial, hobeys answer (h.answered hrun)⟩, hbehind,
      h.exact_of_same (fun gapId hl => absurd hl (hlabel gapId)) fun gapId =>
        (h.used_after answer hold hop hopens).1, fun _ gapId huses => ?_⟩
    obtain ⟨hsame, hused⟩ := h.used_after answer hold hop hopens
    exact hsame.mpr (hused huses)
  · cases hret

theorem Sound.moved {label : JournalCall}
    (hold : pool.tasks[i]? = some (label, .call op next)) :
    Moved initial pool label op (next answer) := by
  cases label with
  | openGap event state => exact h.moved_openGap hrun hold
  | closeGap event state => exact h.moved_closeGap hrun hold
  | rollover boundary => exact h.moved_rollover hrun hold

end Moved

theorem Sound.start (h : Sound initial pool) {label : JournalCall}
    (hgood : pool.Harmless initial (.start label))
    (hstart : pool.CanStart initial (.start label)) :
    Sound initial { pool with tasks := pool.tasks ++ [(label, label.program)] } := by
  have hreturned : ∀ call, Returned { pool with
      tasks := pool.tasks ++ [(label, label.program)] } call ↔ pool.Returned call := by
    intro call
    obtain ⟨op, next, hprogram⟩ := program_eq_call label
    simp [Returned, hprogram]
  have hopened : ∀ gapId, Opened initial { pool with
      tasks := pool.tasks ++ [(label, label.program)] } gapId ↔ pool.Opened initial gapId := by
    intro gapId
    simp only [Opened, hreturned]
  refine ⟨h.sealedDays, h.behind, fun task hm => ?_, fun gapId => ?_, fun task hm => ?_,
    fun task hm gapId hcloses => ?_, fun task hm gapId hopens => ?_, ?_⟩
  · rcases List.mem_append.mp hm with hm | hm
    · exact h.tasks task hm
    · rw [List.mem_singleton.mp hm]
      cases label with
      | openGap event state =>
        exact .inr (.inl ⟨each_openGap event, obeys_openGap hgood, ends_openGap event⟩)
      | closeGap event state => exact .inl ⟨rfl, fun gapId ⟨_, _, heq, _⟩ => by cases heq⟩
      | rollover boundary => exact .inl ⟨rfl, fun gapId ⟨_, _, heq, _⟩ => by cases heq⟩
  · simp only [Opened, Closed, hreturned]
    exact h.exact gapId
  · rcases List.mem_append.mp hm with hm | hm
    · exact h.used task hm
    · rw [List.mem_singleton.mp hm]
      intro hopens gapId huses
      cases label with
      | openGap event state => exact absurd (opens_openGap.mpr rfl) (hopens event.gapId)
      | closeGap event state =>
        rcases huses with huses | ⟨hlooks, -⟩
        · exact absurd huses id
        · exact absurd trivial hlooks
      | rollover boundary =>
        rcases huses with huses | ⟨hlooks, -⟩
        · exact absurd huses id
        · exact absurd trivial hlooks
  · rw [hopened]
    rcases List.mem_append.mp hm with hm | hm
    · exact h.known task hm gapId hcloses
    · rw [List.mem_singleton.mp hm] at hcloses
      obtain ⟨event, state, heq, rfl⟩ := hcloses
      cases heq
      exact hstart
  · rcases List.mem_append.mp hm with hm | hm
    · exact h.fresh task hm gapId hopens
    · rw [List.mem_singleton.mp hm] at hopens
      obtain ⟨event, state, heq, rfl⟩ := hopens
      cases heq
      exact hstart.1
  · rw [List.map_append, List.pairwise_append]
    refine ⟨h.distinct, List.pairwise_singleton _ _, fun earlier hearlier later hlater => ?_⟩
    rw [List.mem_singleton.mp hlater]
    rintro gapId hopens ⟨event, state, heq, rfl⟩
    obtain ⟨task, hm, rfl⟩ := List.mem_map.mp hearlier
    cases heq
    exact hstart.2 task hm hopens

theorem Sound.advance (h : Sound initial pool) {i : Nat} {label : JournalCall} {op : JournalOp}
    {next : op.Answer → Journal Unit} {task : Journal Unit} {store : GapFiles}
    (hold : pool.tasks[i]? = some (label, .call op next))
    (hsealed : store.sealedDays = pool.store.sealedDays)
    (hread : ∀ gapId, store.openGaps.read gapId = op.readAfter pool.store gapId)
    (hmoved : Moved initial pool label op task)
    (hgood : ∀ gapId, op = .removeState gapId → ∀ other ∈ pool.tasks, ¬ StillUses other.2 gapId) :
    Sound initial { store, tasks := pool.tasks.set i (label, task) } := by
  have hm := List.mem_of_getElem? hold
  have hcases : ∀ {other}, other ∈ pool.tasks.set i (label, task) →
      other ∈ pool.tasks ∨ other = (label, task) := List.mem_or_eq_of_mem_set
  refine ⟨hsealed.trans h.sealedDays, fun gapId event hevent => ?_, fun other hother => ?_,
    fun gapId => ?_, fun other hother hopens gapId huses => ?_, fun other hother gapId hcloses => ?_,
    fun other hother gapId hopens => ?_, ?_⟩
  · rw [hread] at hevent
    cases op with
    | writeState written =>
      simp only [JournalOp.readAfter] at hevent
      split at hevent
      · cases hevent
        exact hmoved.behind
      · exact h.behind gapId event hevent
    | removeState removed =>
      simp only [JournalOp.readAfter] at hevent
      split at hevent
      · cases hevent
      · exact h.behind gapId event hevent
    | _ => exact h.behind gapId event hevent
  · rcases hcases hother with hother | rfl
    · exact h.tasks other hother
    · exact .inr hmoved.ok
  · rw [opened_set hold, closed_set hold]
    change store.openGaps.read gapId ≠ none ↔ _
    rw [hread]
    exact hmoved.exact gapId
  · change store.openGaps.read gapId ≠ none
    rw [hread]
    rcases hcases hother with hother | rfl
    · have hstate := h.used other hother hopens gapId huses
      cases op with
      | writeState written =>
        simp only [JournalOp.readAfter]
        split
        · exact Option.some_ne_none _
        · exact hstate
      | removeState removed =>
        have hne : removed ≠ gapId := by
          rintro rfl
          exact hgood removed rfl other hother huses
        simpa only [JournalOp.readAfter, if_neg hne] using hstate
      | _ => exact hstate
    · exact hmoved.used hopens gapId huses
  · refine (opened_set hold).mpr (.inl ?_)
    rcases hcases hother with hother | rfl
    · exact h.known other hother gapId hcloses
    · exact h.known _ hm gapId hcloses
  · rcases hcases hother with hother | rfl
    · exact h.fresh other hother gapId hopens
    · exact h.fresh _ hm gapId hopens
  · have hlabels : (pool.tasks.set i (label, task)).map Prod.fst = pool.tasks.map Prod.fst := by
      obtain ⟨hi, heq⟩ := List.getElem?_eq_some_iff.mp hold
      have hi' : i < (pool.tasks.map Prod.fst).length := by simpa using hi
      have hlabel : label = (pool.tasks.map Prod.fst)[i] := by simp [heq]
      rw [List.map_set, hlabel, List.set_getElem_self]
    rw [hlabels]
    exact h.distinct

/-- A rollover finds the files it reads. -/
theorem Sound.no_error (h : Sound initial pool) {i : Nat} {boundary : Int} {op : JournalOp}
    {next : op.Answer → Journal Unit} {e : String}
    (hold : pool.tasks[i]? = some (.rollover boundary, .call op next)) :
    op.run pool.store ≠ .error e := by
  intro herror
  obtain ⟨gapId, rfl, hnone⟩ := JournalOp.run_error herror
  refine h.used _ (List.mem_of_getElem? hold) ?_ gapId (.inl rfl) hnone
  rintro gapId ⟨event, state, heq, -⟩
  cases heq

theorem Sound.raised (h : Sound initial pool) {i : Nat} {label : JournalCall} {op : JournalOp}
    {next : op.Answer → Journal Unit} {e : String}
    (hold : pool.tasks[i]? = some (label, .call op next))
    (herror : op.run pool.store = .error e) :
    Sound initial { pool with tasks := pool.tasks.set i (label, raise e) } := by
  obtain ⟨gapId, rfl, -⟩ := JournalOp.run_error herror
  refine h.advance hold rfl (fun _ => rfl) ⟨.inl ?_, trivial,
    h.exact_of_same (fun _ _ => nofun) fun _ => Iff.rfl, fun _ _ huses => absurd huses id⟩ nofun
  cases label with
  | openGap event state => exact ⟨trivial, trivial, trivial⟩
  | closeGap event state => exact ⟨trivial, trivial, trivial⟩
  | rollover boundary => exact absurd herror (h.no_error hold)

/-- A harmless step keeps the invariant. -/
theorem Sound.step (h : Sound initial pool) {event : PoolEvent JournalCall}
    (hgood : pool.Harmless initial event) (hstep : Step initial pool event pool') :
    Sound initial pool' := by
  obtain ⟨hstart, hstep⟩ := hstep
  rcases Pool.step_cases hstep with
    ⟨label, rfl, rfl⟩ | ⟨i, label, op, next, rfl, hold, ⟨e, herror, rfl⟩ | ⟨answer, store, hrun, rfl⟩⟩
  · exact h.start hgood hstart
  · exact h.raised hold herror
  · obtain ⟨hsealed, hread, -⟩ := JournalOp.run_ok hrun
    refine h.advance hold hsealed hread (h.moved hrun hold) ?_
    rintro gapId rfl
    exact hgood label gapId next hold

theorem Sound.rolloversReturn (h : Sound initial pool) : pool.RolloversReturn := by
  intro boundary e hm
  rcases h.tasks _ hm with ⟨hstart, -⟩ | ⟨-, hfails⟩ | hret
  · obtain ⟨op, next, hprogram⟩ := program_eq_call (.rollover boundary)
    rw [hprogram] at hstart
    cases hstart
  · exact hfails
  · cases hret

/-! ## Closed gaps stay closed -/

/-- The gap whose OPEN event is published next is not closed. -/
theorem Sound.not_reopened (h : Sound initial pool) {i : Nat} {label : JournalCall}
    {name : ArtifactName} {next : Unit → Journal Unit}
    (hold : pool.tasks[i]? = some (label, .call (.writeManifest name) next))
    (hopened : name.state = .opened) : ¬ pool.Closed name.gapId := by
  intro hclosed
  have hm := List.mem_of_getElem? hold
  cases label with
  | openGap event state =>
    rcases h.tasks _ hm with ⟨-, hnone⟩ | ⟨⟨hid, -⟩, -⟩ | hret
    · exact hnone event.gapId (opens_openGap.mpr rfl)
    · obtain ⟨call, hcall, hreturned⟩ := hclosed
      have hid : name.gapId = event.gapId := hid
      exact h.not_opened hold (hid ▸ h.known _ hreturned _ hcall)
    · cases hret
  | closeGap event state =>
    refine ((h.exact name.gapId).mp (h.used _ hm ?_ _ (.inl ⟨rfl, hopened⟩))).2 hclosed
    rintro gapId ⟨event', state', heq, -⟩
    cases heq
  | rollover boundary =>
    refine ((h.exact name.gapId).mp (h.used _ hm ?_ _ (.inl ⟨rfl, hopened⟩))).2 hclosed
    rintro gapId ⟨event', state', heq, -⟩
    cases heq

/-- After the `close` of a gap has returned, no step publishes an OPEN event for it. -/
theorem Sound.closed_step (h : Sound initial pool) {event : PoolEvent JournalCall}
    (hstep : Step initial pool event pool') {gapId : String} (hclosed : pool.Closed gapId) :
    pool'.Closed gapId ∧ pool'.openEvents gapId = pool.openEvents gapId := by
  rcases Pool.step_cases hstep.2 with
    ⟨label, rfl, rfl⟩ | ⟨i, label, op, next, rfl, hold, ⟨e, herror, rfl⟩ | ⟨answer, store, hrun, rfl⟩⟩
  · obtain ⟨call, hcall, hreturned⟩ := hclosed
    exact ⟨⟨call, hcall, List.mem_append_left _ hreturned⟩, rfl⟩
  · exact ⟨(closed_set hold).mpr (.inl hclosed), rfl⟩
  · refine ⟨(closed_set hold).mpr (.inl hclosed), ?_⟩
    rcases (JournalOp.run_ok hrun).2.2 with hsame | ⟨name, rfl, happend⟩
    · simp only [openEvents, hsame]
    · have hnone : ¬ (name.gapId = gapId ∧ name.state = .opened) := by
        rintro ⟨rfl, hopened⟩
        exact h.not_reopened hold hopened hclosed
      simp [openEvents, happend, hnone]

/-! ## Runs and schedules -/

abbrev CarefulStep (initial : GapFiles) :=
  Guarded (fun pool event => Harmless initial pool event) (Step initial)

variable {events : List (PoolEvent JournalCall)}

theorem sound_start (hbehind : ∀ gapId event, initial.openGaps.read gapId = some event →
    OpenBehind initial.sealedDays event) : Sound initial (start initial) where
  sealedDays := rfl
  behind := hbehind
  tasks := by simp [start]
  exact := fun gapId => by simp [Opened, Closed, Returned, start]
  used := by simp [start]
  known := by simp [start]
  fresh := by simp [start]
  distinct := .nil

theorem sound_run (hrun : Run (CarefulStep initial) pool events pool') (h : Sound initial pool) :
    Sound initial pool' :=
  hrun.preserves (fun h hstep => h.step hstep.1 hstep.2) h

theorem noLateOpen_run (hrun : Run (CarefulStep initial) pool events pool')
    (h : Sound initial pool) : pool.NoLateOpen pool' := by
  intro gapId hclosed
  induction hrun with
  | nil => rfl
  | cons hstep _ ih =>
    obtain ⟨hclosed', hsame⟩ := h.closed_step hstep.2 hclosed
    exact (ih (h.step hstep.1 hstep.2) hclosed').trans hsame

/-- An infinite schedule of careful steps, which may idle in between. -/
structure Schedule (initial : GapFiles) (pools : Nat → JournalPool)
    (moves : Nat → Option (PoolEvent JournalCall)) : Prop where
  start : pools 0 = JournalPool.start initial
  idle : ∀ n, moves n = none → pools (n + 1) = pools n
  move : ∀ n event, moves n = some event → CarefulStep initial (pools n) event (pools (n + 1))

/-- As long as the task has operations left, it moves again. -/
def Fair (pools : Nat → JournalPool) (moves : Nat → Option (PoolEvent JournalCall)) (i : Nat) :
    Prop :=
  ∀ n label op next, (pools n).tasks[i]? = some (label, .call op next) →
    ∃ m, n ≤ m ∧ moves m = some (.advance i)

variable {pools : Nat → JournalPool} {moves : Nat → Option (PoolEvent JournalCall)}

theorem Schedule.sound (hschedule : Schedule initial pools moves)
    (h : Sound initial (JournalPool.start initial)) (n : Nat) : Sound initial (pools n) := by
  induction n with
  | zero => exact hschedule.start ▸ h
  | succ n ih =>
    cases hmove : moves n with
    | none => exact hschedule.idle n hmove ▸ ih
    | some event => exact ih.step (hschedule.move n event hmove).1 (hschedule.move n event hmove).2

theorem Schedule.returns (hschedule : Schedule initial pools moves)
    (h : Sound initial (JournalPool.start initial)) {i n : Nat} (hfair : Fair pools moves i)
    {boundary : Int} {task : Journal Unit}
    (htask : (pools n).tasks[i]? = some (.rollover boundary, task)) :
    ∃ m, n ≤ m ∧ (pools m).Returned (.rollover boundary) := by
  obtain ⟨m, hle, hreturned | ⟨e, hraised⟩⟩ := Pool.finishes_of_fair hschedule.idle
    (fun n event hmove => (hschedule.move n event hmove).2.2) hfair htask
  · exact ⟨m, hle, List.mem_of_getElem? hreturned⟩
  · exact absurd (List.mem_of_getElem? hraised)
      ((hschedule.sound h m).rolloversReturn boundary e)

/-- While no gap is open behind a sealed day and calls only remove state files that no other call
still uses, rollovers return, the directory is exact at every moment, and no OPEN event follows the
`close` of its gap. -/
theorem rollover_among_calls (hbehind : ∀ gapId event,
    initial.openGaps.read gapId = some event → OpenBehind initial.sealedDays event) :
    (∀ events pool, Run (CarefulStep initial) (start initial) events pool →
      pool.RolloversReturn ∧ pool.DirectoryExact initial ∧
        ∀ more later, Run (CarefulStep initial) pool more later → pool.NoLateOpen later) ∧
      ∀ pools moves, Schedule initial pools moves → ∀ i, Fair pools moves i →
        ∀ n boundary task, (pools n).tasks[i]? = some (.rollover boundary, task) →
          ∃ m, n ≤ m ∧ (pools m).Returned (.rollover boundary) := by
  have hstart := sound_start hbehind
  constructor
  · intro events pool hrun
    have hsound := sound_run hrun hstart
    exact ⟨hsound.rolloversReturn, hsound.exact, fun more later hmore =>
      noLateOpen_run hmore hsound⟩
  · intro pools moves hschedule i hfair n boundary task htask
    exact hschedule.returns hstart hfair htask

/-! ## A rollover and one close -/

def heldGap : GapEvent where
  gapId := "gap-1"
  state := .opened
  reason := .connectionLost
  collectorId := "collector"
  observedAtRealtimeNs := 86400000000500

/-- The gap is closed in the last nanosecond of its day. -/
def heldGapClosed : GapEvent where
  gapId := "gap-1"
  state := .closed
  reason := .connectionLost
  collectorId := "collector"
  observedAtRealtimeNs := 172799999999999

def heldFiles : GapFiles where
  openGaps := EventFiles.empty.write heldGap
  artifacts := EventFiles.empty.write heldGap
  manifests := [heldGap.artifactName]

theorem heldFiles_behind (gapId : String) (event : GapEvent)
    (_ : heldFiles.openGaps.read gapId = some event) :
    OpenBehind heldFiles.sealedDays event := fun day hm => by simp [heldFiles] at hm

/-- A rollover on the day of the gap, alone. -/
def heldMoves (n : Nat) : Option (PoolEvent JournalCall) :=
  [.start (.rollover 1), .advance 0, .advance 0][n]?

def heldPools : Nat → JournalPool
  | 0 => start heldFiles
  | n + 1 => ((heldMoves n).bind (heldPools n).step).getD (heldPools n)

theorem heldPools_rest (n : Nat) : heldPools (n + 3) = heldPools 3 := by
  induction n with
  | zero => rfl
  | succ n ih => exact ih

theorem heldPools_step (n : Nat) (event : PoolEvent JournalCall) (hmove : heldMoves n = some event) :
    CarefulStep heldFiles (heldPools n) event (heldPools (n + 1)) := by
  rcases n with _ | _ | _ | n
  · cases hmove
    exact ⟨trivial, by simp [CanStart, heldPools, start], rfl⟩
  · cases hmove
    exact ⟨fun call gapId next htask => (by cases htask), trivial, rfl⟩
  · cases hmove
    exact ⟨fun call gapId next htask => (by cases htask), trivial, rfl⟩
  · cases hmove

theorem heldPools_schedule : Schedule heldFiles heldPools heldMoves where
  start := rfl
  idle := fun n hmove => by simp [heldPools, hmove]
  move := heldPools_step

theorem heldPools_fair : Fair heldPools heldMoves 0 := by
  intro n label op next htask
  rcases n with _ | _ | _ | n
  · exact ⟨1, by omega, rfl⟩
  · exact ⟨1, by omega, rfl⟩
  · exact ⟨2, by omega, rfl⟩
  · rw [heldPools_rest] at htask
    cases htask

theorem rollover_among_calls_heldFiles :
    (∃ events, Run (CarefulStep heldFiles) (start heldFiles) events (heldPools 3)) ∧
      (heldPools 3).RolloversReturn ∧ (heldPools 3).DirectoryExact heldFiles ∧
      (∀ more later, Run (CarefulStep heldFiles) (heldPools 3) more later →
        (heldPools 3).NoLateOpen later) ∧
      ∃ m, 1 ≤ m ∧ (heldPools m).Returned (.rollover 1) := by
  obtain ⟨hruns, hschedules⟩ := rollover_among_calls heldFiles_behind
  have hrun : Run (CarefulStep heldFiles) (start heldFiles)
      [.start (.rollover 1), .advance 0, .advance 0] (heldPools 3) :=
    .cons (heldPools_step 0 _ rfl) (.cons (heldPools_step 1 _ rfl)
      (.cons (heldPools_step 2 _ rfl) (.nil _)))
  obtain ⟨hreturns, hexact, hlate⟩ := hruns _ _ hrun
  exact ⟨⟨_, hrun⟩, hreturns, hexact, hlate,
    hschedules heldPools heldMoves heldPools_schedule 0 heldPools_fair 1 1 _ rfl⟩

/-- A storage gap of the same time. A restart has sealed its day and the next one: it closes every
stale gap but that one. -/
def storageGap : GapEvent := { heldGap with reason := .storageExhausted }

def sealedFiles : GapFiles where
  openGaps := EventFiles.empty.write storageGap
  artifacts := EventFiles.empty.write storageGap
  manifests := [storageGap.artifactName]
  sealedDays := [1, 2]

/-- The close removes the state file between the listing of the rollover and its read. And a
rollover raises on its own where the days behind an open gap are sealed. -/
theorem not_rolloversReturn_heldFiles :
    (∃ events pool, Run (Step heldFiles) (start heldFiles) events pool ∧ ¬ pool.RolloversReturn) ∧
    ∃ pool, Run (Step sealedFiles) (start sealedFiles)
        [.start (.rollover 3), .advance 0, .advance 0, .advance 0, .advance 0] pool ∧
      ¬ pool.RolloversReturn := by
  constructor
  · refine ⟨[.start (.rollover 2), .advance 0, .start (.closeGap heldGapClosed rfl),
      .advance 1, .advance 1, .advance 1, .advance 1, .advance 1, .advance 1, .advance 1,
      .advance 0], _, .cons ⟨by simp [CanStart, start], rfl⟩ <| .cons ⟨trivial, rfl⟩ <|
        .cons ⟨.inl (by decide), rfl⟩ <| .cons ⟨trivial, rfl⟩ <| .cons ⟨trivial, rfl⟩ <|
        .cons ⟨trivial, rfl⟩ <| .cons ⟨trivial, rfl⟩ <| .cons ⟨trivial, rfl⟩ <|
        .cons ⟨trivial, rfl⟩ <| .cons ⟨trivial, rfl⟩ <| .cons ⟨trivial, rfl⟩ (.nil _),
      fun hreturns => ?_⟩
    exact hreturns 2 "FileNotFoundError" (List.mem_of_getElem? (i := 0) rfl)
  · refine ⟨_, .cons ⟨by simp [CanStart, start], rfl⟩ <| .cons ⟨trivial, rfl⟩ <|
      .cons ⟨trivial, rfl⟩ <| .cons ⟨trivial, rfl⟩ <| .cons ⟨trivial, rfl⟩ (.nil _),
      fun hreturns => ?_⟩
    exact hreturns 3 "cannot publish into sealed UTC day" (List.mem_of_getElem? (i := 0) rfl)

end JournalPool

end MiryFormal
