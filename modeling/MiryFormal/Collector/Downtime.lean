import MiryFormal.Collector.ServiceRuns

/-!
# No downtime outside the ledger

Over all boots, stops, crashes and storage stops: since the formal start, every instant at which
the sources were not ready lies in a gap of the collector, or in the one that the next boot opens.
-/

namespace MiryFormal

set_option autoImplicit false

namespace CollectorService

/-- A gap holds the instant. -/
def Covered (ledger : List DowntimeGap) (t : Int) : Prop :=
  ∃ gap ∈ ledger, gap.fromNs ≤ t ∧ ∀ closedNs, gap.closedNs = some closedNs → t ≤ closedNs

/-- The gap of the next boot will hold the instant. -/
def Pending (lease : Option LeaseState) (sealedNs t : Int) : Prop :=
  ∃ affectedFromNs, lease = some (.running affectedFromNs) ∧ max affectedFromNs sealedNs ≤ t

/-- The stretches of time have no instant outside `P`. -/
def Within (P : Int → Prop) (missed : List (Int × Int)) : Prop :=
  ∀ stretch ∈ missed, ∀ t, stretch.1 ≤ t → t ≤ stretch.2 → P t

def HasOpen (ledger : List DowntimeGap) : Prop := ∃ gap ∈ ledger, gap.closedNs = none

def IsOpen (ledger : List DowntimeGap) (gapId : Nat) : Prop :=
  ∃ gap ∈ ledger, gap.gapId = gapId ∧ gap.closedNs = none

def Leased (lease : Option LeaseState) : Prop :=
  ∃ affectedFromNs, lease = some (.running affectedFromNs)

/-- A boot has yet to publish what the lease stands for, or to write its own lease. -/
def Phase.restarting : Phase → Bool
  | .off | .reading | .opening .recovery _ | .abandoning => true
  | _ => false

/-! ## What holds in every phase -/

/-- The instants so far. -/
structure Clocked (service : CollectorService) : Prop where
  sealedNs : service.sealedNs ≤ service.now
  sealedFloorNs : service.sealedFloorNs ≤ service.now
  startedNs : service.startedNs ≤ service.now
  lease : ∀ ns, service.lease = some (.running ns) → ns ≤ service.now
  heartbeats : ∀ ns ∈ service.heartbeats, ns ≤ service.now
  ledger : ∀ gap ∈ service.ledger, gap.fromNs ≤ service.now
  missed : ∀ stretch ∈ service.missed, stretch.2 ≤ service.now

/-- Every file of an open gap belongs to a gap of the ledger. -/
def Filed (service : CollectorService) : Prop :=
  ∀ file ∈ service.openRoot, ∃ gap ∈ service.ledger, gap.gapId = file.gapId

/-- The storage gaps that have a file are open. -/
def StorageFilesOpen (service : CollectorService) : Prop :=
  ∀ file ∈ service.openRoot, file.reason = .storageExhausted →
    ∀ gap ∈ service.ledger, gap.gapId = file.gapId → gap.closedNs = none

/-- What a boot has to find. -/
structure Safe (service : CollectorService) : Prop where
  accounted : Within
    (fun t => Covered service.ledger t ∨ Pending service.lease service.sealedNs t) service.missed
  sheltered : service.formal = true → HasOpen service.ledger ∨ Leased service.lease

/-- The ledger alone holds what was missed. -/
structure Recording (service : CollectorService) : Prop where
  recorded : Within (Covered service.ledger) service.missed
  sheltered : service.formal = true → service.sources ≠ .ready → HasOpen service.ledger

/-- A boot after the gap of its recovery, before its lease. -/
structure Listing (service : CollectorService) : Prop where
  recording : service.Recording
  sources : service.sources = .down
  files : service.StorageFilesOpen

structure Working (service : CollectorService) : Prop where
  recording : service.Recording
  leased : Leased service.lease
  storageGap : ∀ gapId, service.storageGapId = some gapId → IsOpen service.ledger gapId

/-- An event observed at this instant comes after all that was missed. -/
def Observed (service : CollectorService) (ns : Int) : Prop :=
  ∀ stretch ∈ service.missed, stretch.2 ≤ ns

/-- The sources are up, or the storage loop has taken them down. -/
def Settled (service : CollectorService) : Prop :=
  service.sources = .ready ∨ service.sources = .down

/-- What holds beside it at each place of the program. -/
def Expects (service : CollectorService) : Prop :=
  match service.phase with
  | .off => service.Safe ∧ service.sources = .down
  | .reading =>
      service.Safe ∧ service.sources = .down ∧ service.StorageFilesOpen ∧
        service.sealedFloorNs ≤ service.sealedNs
  | .opening .recovery fromNs =>
      service.Safe ∧ service.sources = .down ∧ service.StorageFilesOpen ∧
        fromNs ≤ service.now ∧
        ∃ ns, service.lease = some (.running ns) ∧ fromNs ≤ max ns service.sealedNs
  | .saving .recovery gapId => service.Listing ∧ IsOpen service.ledger gapId
  | .listing => service.Listing
  | .leasing => service.Listing ∧ service.stale ⊆ service.openRoot
  | .checking => service.Working ∧ service.sources = .down
  | .waiting _ => service.Working ∧ service.sources = .started
  | .closing _ _ | .removing (.stale _ _) _ | .sealing _ | .marking _ =>
      service.Working ∧ service.sources = .ready
  | .publishing (.stale _ _) gap ns =>
      service.Working ∧ service.sources = .ready ∧ service.Observed ns ∧
        service.storageGapId ≠ some gap.gapId
  | .publishing .storage _ ns =>
      service.Working ∧ service.sources = .ready ∧ service.Observed ns
  | .removing .storage _ =>
      service.Recording ∧ Leased service.lease ∧ service.sources = .ready
  | .abandoning => service.Safe ∧ service.sources ≠ .ready
  | .idle => service.Working ∧ service.Settled
  | .opening .storage fromNs =>
      service.Recording ∧ Leased service.lease ∧ service.Settled ∧ fromNs ≤ service.now
  | .saving .storage gapId =>
      service.Recording ∧ Leased service.lease ∧ service.Settled ∧ IsOpen service.ledger gapId
  | .stopping => service.Working ∧ service.sources = .stopping
  | .opening .shutdown fromNs =>
      service.Recording ∧ Leased service.lease ∧ fromNs ≤ service.now
  | .saving .shutdown gapId =>
      service.Recording ∧ Leased service.lease ∧ IsOpen service.ledger gapId
  | .stopSources | .cleaning | .exiting => service.Recording ∧ service.sources ≠ .ready

structure Sound (service : CollectorService) : Prop where
  clocked : service.Clocked
  filed : service.Filed
  quiet : service.phase.background = false → service.phase.ending = false →
    service.heartbeats = []
  informal : service.formal = false → service.missed = []
  expects : service.Expects

variable {service after : CollectorService} {ledger : List DowntimeGap}

/-! ## What the journal does to the ledger -/

theorem covered_publishOpen {t : Int} (reason : GapReason) (fromNs : Int)
    (h : Covered ledger t) : Covered (publishOpen reason fromNs ledger) t := by
  obtain ⟨gap, hm, hgap⟩ := h
  exact ⟨gap, List.mem_append_left _ hm, hgap⟩

theorem covered_publishOpen_self {t : Int} (reason : GapReason) {fromNs : Int} (h : fromNs ≤ t) :
    Covered (publishOpen reason fromNs ledger) t :=
  ⟨_, List.mem_append_right _ List.mem_cons_self, h, fun _ heq => nomatch heq⟩

theorem isOpen_publishOpen (reason : GapReason) (fromNs : Int) :
    IsOpen (publishOpen reason fromNs ledger) ledger.length :=
  ⟨_, List.mem_append_right _ List.mem_cons_self, rfl, rfl⟩

theorem IsOpen.publishOpen {gapId : Nat} (reason : GapReason) (fromNs : Int)
    (h : IsOpen ledger gapId) : IsOpen (publishOpen reason fromNs ledger) gapId := by
  obtain ⟨gap, hm, hgap⟩ := h
  exact ⟨gap, List.mem_append_left _ hm, hgap⟩

theorem IsOpen.hasOpen {gapId : Nat} (h : IsOpen ledger gapId) : HasOpen ledger := by
  obtain ⟨gap, hm, -, hopen⟩ := h
  exact ⟨gap, hm, hopen⟩

/-- A gap that is closed after all that was missed goes on holding it. -/
theorem covered_publishClosed {t : Int} {gapId : Nat} {observedNs : Int} (ht : t ≤ observedNs)
    (h : Covered ledger t) : Covered (publishClosed gapId observedNs ledger) t := by
  obtain ⟨gap, hm, hfrom, hclosed⟩ := h
  refine ⟨_, List.mem_map_of_mem hm, ?_⟩
  split
  · refine ⟨hfrom, fun closedNs heq => ?_⟩
    rw [← Option.some.inj heq]
    exact ht
  · exact ⟨hfrom, hclosed⟩

theorem IsOpen.publishClosed {gapId other : Nat} (observedNs : Int) (hne : gapId ≠ other)
    (h : IsOpen ledger gapId) : IsOpen (publishClosed other observedNs ledger) gapId := by
  obtain ⟨gap, hm, hid, hopen⟩ := h
  refine ⟨gap, List.mem_map.mpr ⟨gap, hm, ?_⟩, hid, hopen⟩
  rw [if_neg fun hother => hne (hid.symm.trans hother.1)]

theorem gapId_publishClosed {gapId : Nat} {observedNs : Int} {gap : DowntimeGap}
    (h : gap ∈ publishClosed gapId observedNs ledger) :
    ∃ before ∈ ledger, before.gapId = gap.gapId ∧ before.fromNs = gap.fromNs := by
  obtain ⟨before, hm, rfl⟩ := List.mem_map.mp h
  refine ⟨before, hm, ?_⟩
  split <;> exact ⟨rfl, rfl⟩

/-! ## The call at hand -/

theorem Recording.safe (h : service.Recording)
    (hlease : Leased service.lease ∨ service.sources ≠ .ready) : service.Safe := by
  refine ⟨fun stretch hm t hfrom hto => .inl (h.recorded stretch hm t hfrom hto), fun hformal => ?_⟩
  rcases hlease with hlease | hsources
  · exact .inr hlease
  · exact .inl (h.sheltered hformal hsources)

theorem Recording.opened (h : service.Recording) (reason : GapReason) (fromNs : Int) :
    Recording { service with ledger := publishOpen reason fromNs service.ledger } where
  recorded stretch hm t hfrom hto :=
    covered_publishOpen reason fromNs (h.recorded stretch hm t hfrom hto)
  sheltered _ _ := (isOpen_publishOpen reason fromNs).hasOpen

theorem Recording.closed (h : service.Recording) (gapId : Nat) {ns : Int}
    (hready : service.sources = .ready) (hobserved : service.Observed ns) :
    Recording { service with ledger := publishClosed gapId ns service.ledger } where
  recorded stretch hm t hfrom hto :=
    covered_publishClosed (hto.trans (hobserved stretch hm)) (h.recorded stretch hm t hfrom hto)
  sheltered _ hsources := absurd hready hsources

theorem Safe.opened (h : service.Safe) (reason : GapReason) (fromNs : Int) :
    Safe { service with ledger := publishOpen reason fromNs service.ledger } where
  accounted stretch hm t hfrom hto :=
    (h.accounted stretch hm t hfrom hto).imp_left (covered_publishOpen reason fromNs)
  sheltered _ := .inl (isOpen_publishOpen reason fromNs).hasOpen

/-- What is left of it wherever the program is. -/
theorem Sound.anywhere (h : service.Sound) : service.Safe ∧
    (service.phase.restarting = false → service.Recording) ∧
    (service.phase.background = true → Leased service.lease) := by
  have hexpects := h.expects
  unfold Expects at hexpects
  split at hexpects
  all_goals rename_i hphase; rw [hphase]
  case h_5 =>
    have hsafe := hexpects.recording.safe (.inr (by rw [hexpects.sources]; decide))
    exact ⟨hsafe, fun _ => hexpects.recording, nofun⟩
  all_goals first
    | exact ⟨hexpects.1.recording.safe (.inl hexpects.1.leased), fun _ => hexpects.1.recording,
        fun _ => hexpects.1.leased⟩
    | exact ⟨hexpects.1.safe (.inl hexpects.2.1), fun _ => hexpects.1, fun _ => hexpects.2.1⟩
    | exact ⟨hexpects.1.safe (.inr hexpects.2), fun _ => hexpects.1, nofun⟩
    | exact ⟨hexpects.1.recording.safe (.inr (by rw [hexpects.1.sources]; decide)),
        fun _ => hexpects.1.recording, nofun⟩
    | exact ⟨hexpects.1, nofun, nofun⟩

theorem Sound.safe (h : service.Sound) : service.Safe := h.anywhere.1

theorem Sound.recording (h : service.Sound) (hphase : service.phase.restarting = false) :
    service.Recording :=
  h.anywhere.2.1 hphase

/-- What the call at hand does, and what else is known where it does it. -/
theorem effect_cases (service : CollectorService) :
    (∃ why fromNs, service.phase = .opening why fromNs ∧ service.effect =
      { service with ledger := publishOpen why.reason fromNs service.ledger }) ∨
    (∃ why gapId, service.phase = .saving why gapId ∧ service.effect =
      { service with openRoot := service.openRoot ++ [⟨gapId, why.reason⟩] }) ∨
    (service.phase = .leasing ∧ service.effect =
      { service with lease := some (.running (max service.startedNs service.sealedFloorNs)) }) ∨
    (∃ why gap ns, service.phase = .publishing why gap ns ∧ service.effect =
      { service with ledger := publishClosed gap.gapId ns service.ledger }) ∨
    (∃ why gap, service.phase = .removing why gap ∧ service.effect =
      { service with openRoot := service.openRoot.filter (·.gapId ≠ gap.gapId) }) ∨
    (∃ starter, service.phase = .marking starter ∧ service.effect =
      { service with formal := true }) ∨
    (service.phase = .cleaning ∧ service.effect = { service with lease := some .clean }) ∨
    service.effect = service := by
  unfold effect
  split
  · exact .inl ⟨_, _, ‹_›, rfl⟩
  · exact .inr <| .inl ⟨_, _, ‹_›, rfl⟩
  · exact .inr <| .inr <| .inl ⟨‹_›, rfl⟩
  · exact .inr <| .inr <| .inr <| .inl ⟨_, _, _, ‹_›, rfl⟩
  · exact .inr <| .inr <| .inr <| .inr <| .inl ⟨_, _, ‹_›, rfl⟩
  · exact .inr <| .inr <| .inr <| .inr <| .inr <| .inl ⟨_, ‹_›, rfl⟩
  · exact .inr <| .inr <| .inr <| .inr <| .inr <| .inr <| .inl ⟨‹_›, rfl⟩
  · exact .inr <| .inr <| .inr <| .inr <| .inr <| .inr <| .inr rfl

theorem effect_frame (service : CollectorService) :
    service.effect.phase = service.phase ∧ service.effect.missed = service.missed ∧
    service.effect.heartbeats = service.heartbeats := by
  obtain ⟨_, _, _, heq⟩ | ⟨_, _, _, heq⟩ | ⟨_, heq⟩ | ⟨_, _, _, _, heq⟩ | ⟨_, _, _, heq⟩ |
    ⟨_, _, heq⟩ | ⟨_, heq⟩ | heq := service.effect_cases
  all_goals
    rw [heq]
    exact ⟨rfl, rfl, rfl⟩

@[simp] theorem effect_phase : service.effect.phase = service.phase := service.effect_frame.1

@[simp] theorem effect_missed : service.effect.missed = service.missed := service.effect_frame.2.1

@[simp] theorem effect_heartbeats : service.effect.heartbeats = service.heartbeats :=
  service.effect_frame.2.2

/-- The call at hand keeps to the clock. -/
theorem Sound.effect_clocked (h : service.Sound) : service.effect.Clocked := by
  have hclocked := h.clocked
  obtain ⟨why, fromNs, hphase, heq⟩ | ⟨_, _, _, heq⟩ | ⟨_, heq⟩ | ⟨_, gap, ns, _, heq⟩ |
    ⟨_, _, _, heq⟩ | ⟨_, _, heq⟩ | ⟨_, heq⟩ | heq := service.effect_cases
  all_goals rw [heq]
  · have hfrom : fromNs ≤ service.now := by
      have hexpects := h.expects
      unfold Expects at hexpects
      rw [hphase] at hexpects
      cases why with
      | recovery => exact hexpects.2.2.2.1
      | storage => exact hexpects.2.2.2
      | shutdown => exact hexpects.2.2
    refine { hclocked with ledger := fun gap hm => ?_ }
    rcases List.mem_append.mp hm with hm | hm
    · exact hclocked.ledger gap hm
    · rw [List.mem_singleton.mp hm]
      exact hfrom
  · exact { hclocked with }
  · refine { hclocked with lease := fun ns heq => ?_ }
    rw [← LeaseState.running.inj (Option.some.inj heq)]
    exact max_le hclocked.startedNs hclocked.sealedFloorNs
  · refine { hclocked with ledger := fun gap hm => ?_ }
    obtain ⟨before, hbefore, -, hfrom⟩ := gapId_publishClosed hm
    rw [← hfrom]
    exact hclocked.ledger before hbefore
  · exact { hclocked with }
  · exact { hclocked with }
  · exact { hclocked with lease := fun ns heq => nomatch heq }
  · exact hclocked

theorem Sound.effect_filed (h : service.Sound) : service.effect.Filed := by
  have hfiled := h.filed
  obtain ⟨_, _, _, heq⟩ | ⟨why, gapId, hphase, heq⟩ | ⟨_, heq⟩ | ⟨_, _, _, _, heq⟩ |
    ⟨_, _, _, heq⟩ | ⟨_, _, heq⟩ | ⟨_, heq⟩ | heq := service.effect_cases
  all_goals rw [heq]
  · intro file hm
    obtain ⟨gap, hgap, hid⟩ := hfiled file hm
    exact ⟨gap, List.mem_append_left _ hgap, hid⟩
  · have hopen : IsOpen service.ledger gapId := by
      have hexpects := h.expects
      unfold Expects at hexpects
      rw [hphase] at hexpects
      cases why with
      | recovery => exact hexpects.2
      | storage => exact hexpects.2.2.2
      | shutdown => exact hexpects.2.2
    intro file hm
    rcases List.mem_append.mp hm with hm | hm
    · exact hfiled file hm
    · obtain ⟨gap, hgap, hid, -⟩ := hopen
      rw [List.mem_singleton.mp hm]
      exact ⟨gap, hgap, hid⟩
  · exact hfiled
  · intro file hm
    obtain ⟨gap, hgap, hid⟩ := hfiled file hm
    refine ⟨_, List.mem_map_of_mem hgap, ?_⟩
    split <;> exact hid
  · exact fun file hm => hfiled file (List.mem_of_mem_filter hm)
  · exact hfiled
  · exact hfiled
  · exact hfiled

theorem Sound.effect_informal (h : service.Sound) :
    service.effect.formal = false → service.effect.missed = [] := by
  rw [effect_missed]
  obtain ⟨_, _, _, heq⟩ | ⟨_, _, _, heq⟩ | ⟨_, heq⟩ | ⟨_, _, _, _, heq⟩ | ⟨_, _, _, heq⟩ |
    ⟨_, _, heq⟩ | ⟨_, heq⟩ | heq := service.effect_cases
  all_goals rw [heq]
  case inr.inr.inr.inr.inr.inl => exact fun hformal => nomatch hformal
  all_goals exact h.informal

theorem Sound.publishing (h : service.Sound) {why : Closing} {gap : OpenState} {ns : Int}
    (hphase : service.phase = .publishing why gap ns) :
    service.Working ∧ service.sources = .ready ∧ service.Observed ns := by
  have hexpects := h.expects
  unfold Expects at hexpects
  rw [hphase] at hexpects
  cases why with
  | stale starter todo => exact ⟨hexpects.1, hexpects.2.1, hexpects.2.2.1⟩
  | storage => exact hexpects

/-- The call at hand leaves what a boot has to find. -/
theorem Sound.effect_safe (h : service.Sound) : service.effect.Safe := by
  have hsafe := h.safe
  obtain ⟨_, _, _, heq⟩ | ⟨_, _, _, heq⟩ | ⟨hphase, heq⟩ | ⟨why, gap, ns, hphase, heq⟩ |
    ⟨_, _, _, heq⟩ | ⟨starter, hphase, heq⟩ | ⟨hphase, heq⟩ | heq := service.effect_cases
  all_goals rw [heq]
  · exact hsafe.opened _ _
  · exact { hsafe with }
  · have hrecording := h.recording (by rw [hphase]; rfl)
    exact ⟨fun stretch hm t hfrom hto => .inl (hrecording.recorded stretch hm t hfrom hto),
      fun _ => .inr ⟨_, rfl⟩⟩
  · obtain ⟨hworking, hready, hobserved⟩ := h.publishing hphase
    exact (hworking.recording.closed gap.gapId hready hobserved).safe (.inl hworking.leased)
  · exact { hsafe with }
  · have hexpects := h.expects
    unfold Expects at hexpects
    rw [hphase] at hexpects
    exact ⟨hsafe.accounted, fun _ => .inr hexpects.1.leased⟩
  · have hexpects := h.expects
    unfold Expects at hexpects
    rw [hphase] at hexpects
    exact ⟨fun stretch hm t hfrom hto => .inl (hexpects.1.recorded stretch hm t hfrom hto),
      fun hformal => .inl (hexpects.1.sheltered hformal hexpects.2)⟩
  · exact hsafe

/-- So does the end of the process. -/
theorem exit_sound (hclocked : service.Clocked) (hfiled : service.Filed)
    (hinformal : service.formal = false → service.missed = []) (hsafe : service.Safe) :
    service.exit.Sound where
  clocked := { hclocked with heartbeats := fun _ hm => absurd hm List.not_mem_nil }
  filed := hfiled
  quiet _ _ := rfl
  informal := hinformal
  expects := ⟨{ hsafe with }, rfl⟩

theorem restarting_eq_false_of_background {phase : Phase} (h : phase.background = true) :
    phase.restarting = false := by
  cases phase
  case opening why _ => cases why <;> first | rfl | exact nomatch h
  all_goals first | rfl | exact nomatch h

theorem restarting_eq_false_of_ending {phase : Phase} (h : phase.ending = true) :
    phase.restarting = false := by
  cases phase
  case opening why _ => cases why <;> first | rfl | exact nomatch h
  all_goals first | rfl | exact nomatch h

theorem Sound.background (h : service.Sound) (hbackground : service.phase.background = true) :
    service.Recording ∧ Leased service.lease :=
  ⟨h.recording (restarting_eq_false_of_background hbackground), h.anywhere.2.2 hbackground⟩

/-- A call that is cut off has kept what the end of the service needs. -/
theorem Sound.effect_background (h : service.Sound)
    (hbackground : service.phase.background = true) :
    service.effect.Recording ∧ Leased service.effect.lease := by
  obtain ⟨hrecording, hleased⟩ := h.background hbackground
  obtain ⟨_, _, _, heq⟩ | ⟨_, _, _, heq⟩ | ⟨_, heq⟩ | ⟨why, gap, ns, hphase, heq⟩ |
    ⟨_, _, _, heq⟩ | ⟨starter, hphase, heq⟩ | ⟨hphase, _⟩ | heq := service.effect_cases
  case inr.inr.inr.inr.inr.inr.inl =>
    rw [hphase] at hbackground
    exact nomatch hbackground
  all_goals rw [heq]
  · exact ⟨hrecording.opened _ _, hleased⟩
  · exact ⟨{ hrecording with }, hleased⟩
  · exact ⟨{ hrecording with }, ⟨_, rfl⟩⟩
  · obtain ⟨-, hready, hobserved⟩ := h.publishing hphase
    exact ⟨hrecording.closed gap.gapId hready hobserved, hleased⟩
  · exact ⟨{ hrecording with }, hleased⟩
  · have hexpects := h.expects
    unfold Expects at hexpects
    rw [hphase] at hexpects
    exact ⟨⟨hrecording.recorded, fun _ hsources => absurd hexpects.2 hsources⟩, hleased⟩
  · exact ⟨hrecording, hleased⟩

/-! ## Events that leave the program where it is -/

/-- Nothing moves but the clock, the lease and what was missed. -/
structure Still (service after : CollectorService) : Prop where
  phase : after.phase = service.phase
  sources : after.sources = service.sources
  ledger : after.ledger = service.ledger
  openRoot : after.openRoot = service.openRoot
  storageGapId : after.storageGapId = service.storageGapId
  stale : after.stale = service.stale
  formal : after.formal = service.formal
  now : service.now ≤ after.now

theorem Recording.still (h : service.Recording) (hstill : service.Still after)
    (hrecorded : Within (Covered service.ledger) after.missed) : after.Recording := by
  refine ⟨?_, ?_⟩
  · rw [hstill.ledger]
    exact hrecorded
  · rw [hstill.ledger, hstill.formal, hstill.sources]
    exact h.sheltered

theorem Sound.expects_still (h : service.Sound) (hstill : service.Still after)
    (hsafe : service.Safe → after.Safe)
    (hrecording : service.Recording → after.Recording)
    (hleased : Leased service.lease → Leased after.lease)
    (hobserved : service.sources = .ready → ∀ ns, service.Observed ns → after.Observed ns)
    (hsealed : service.phase.early = true → after.lease = service.lease ∧
      after.sealedNs = service.sealedNs ∧ after.sealedFloorNs ≤ max service.sealedFloorNs service.sealedNs) :
    after.Expects := by
  have hfiles : service.StorageFilesOpen → after.StorageFilesOpen := by
    unfold StorageFilesOpen
    rw [hstill.openRoot, hstill.ledger]
    exact id
  have hlisting : service.Listing → after.Listing := fun h =>
    ⟨hrecording h.recording, hstill.sources.trans h.sources, hfiles h.files⟩
  have hworking : service.Working → after.Working := fun h =>
    ⟨hrecording h.recording, hleased h.leased, by
      rw [hstill.storageGapId, hstill.ledger]
      exact h.storageGap⟩
  have hsettled : service.Settled → after.Settled := fun h => by
    unfold Settled
    rwa [hstill.sources]
  have hexpects := h.expects
  unfold Expects at hexpects ⊢
  rw [hstill.phase]
  split at hexpects
  · exact ⟨hsafe hexpects.1, hstill.sources.trans hexpects.2⟩
  · rename_i hphase
    obtain ⟨-, hsame, hfloor⟩ := hsealed (by rw [hphase]; rfl)
    obtain ⟨hsafe', hdown, hopen, hle⟩ := hexpects
    refine ⟨hsafe hsafe', hstill.sources.trans hdown, hfiles hopen, ?_⟩
    rw [hsame]
    exact hfloor.trans (max_le hle le_rfl)
  · rename_i hphase
    obtain ⟨hlease, hsame, -⟩ := hsealed (by rw [hphase]; rfl)
    obtain ⟨hsafe', hdown, hopen, hfrom, hrunning⟩ := hexpects
    rw [hlease, hsame]
    exact ⟨hsafe hsafe', hstill.sources.trans hdown, hfiles hopen, hfrom.trans hstill.now, hrunning⟩
  · rw [hstill.ledger]
    exact ⟨hlisting hexpects.1, hexpects.2⟩
  · exact hlisting hexpects
  · rw [hstill.stale, hstill.openRoot]
    exact ⟨hlisting hexpects.1, hexpects.2⟩
  · exact ⟨hworking hexpects.1, hstill.sources.trans hexpects.2⟩
  · exact ⟨hworking hexpects.1, hstill.sources.trans hexpects.2⟩
  · exact ⟨hworking hexpects.1, hstill.sources.trans hexpects.2⟩
  · exact ⟨hworking hexpects.1, hstill.sources.trans hexpects.2⟩
  · exact ⟨hworking hexpects.1, hstill.sources.trans hexpects.2⟩
  · exact ⟨hworking hexpects.1, hstill.sources.trans hexpects.2⟩
  · obtain ⟨hworking', hready, hbefore, hother⟩ := hexpects
    rw [hstill.storageGapId]
    exact ⟨hworking hworking', hstill.sources.trans hready, hobserved hready _ hbefore, hother⟩
  · obtain ⟨hworking', hready, hbefore⟩ := hexpects
    exact ⟨hworking hworking', hstill.sources.trans hready, hobserved hready _ hbefore⟩
  · exact ⟨hrecording hexpects.1, hleased hexpects.2.1, hstill.sources.trans hexpects.2.2⟩
  · rw [hstill.sources]
    exact ⟨hsafe hexpects.1, hexpects.2⟩
  · exact ⟨hworking hexpects.1, hsettled hexpects.2⟩
  · obtain ⟨hrecording', hleased', hsettled', hfrom⟩ := hexpects
    exact ⟨hrecording hrecording', hleased hleased', hsettled hsettled', hfrom.trans hstill.now⟩
  · obtain ⟨hrecording', hleased', hsettled', hopen⟩ := hexpects
    rw [hstill.ledger]
    exact ⟨hrecording hrecording', hleased hleased', hsettled hsettled', hopen⟩
  · exact ⟨hworking hexpects.1, hstill.sources.trans hexpects.2⟩
  · exact ⟨hrecording hexpects.1, hleased hexpects.2.1, hexpects.2.2.trans hstill.now⟩
  · rw [hstill.ledger]
    exact ⟨hrecording hexpects.1, hleased hexpects.2.1, hexpects.2.2⟩
  all_goals
    rw [hstill.sources]
    exact ⟨hrecording hexpects.1, hexpects.2⟩

theorem covered_of_hasOpen {now t : Int} (hledger : ∀ gap ∈ ledger, gap.fromNs ≤ now)
    (h : HasOpen ledger) (ht : now ≤ t) : Covered ledger t := by
  obtain ⟨gap, hm, hopen⟩ := h
  refine ⟨gap, hm, (hledger gap hm).trans ht, fun closedNs heq => ?_⟩
  rw [hopen] at heq
  exact nomatch heq

theorem within_append {P : Int → Prop} {missed : List (Int × Int)} {fromNs toNs : Int}
    (h : Within P missed) (hnew : ∀ t, fromNs ≤ t → P t) : Within P (missed ++ [(fromNs, toNs)]) := by
  intro stretch hm t hfrom hto
  rcases List.mem_append.mp hm with hm | hm
  · exact h stretch hm t hfrom hto
  · rw [List.mem_singleton.mp hm] at hfrom
    exact hnew t hfrom

/-- Time goes on. -/
theorem Sound.tick (h : service.Sound) {ns : Int} (hns : service.now ≤ ns) :
    Sound { service with
      now := ns
      missed := if service.formal ∧ service.sources ≠ .ready then
        service.missed ++ [(service.now, ns)] else service.missed } := by
  have hclocked := h.clocked
  by_cases hmissed : service.formal ∧ service.sources ≠ .ready
  · rw [if_pos hmissed]
    have hsafe : service.Safe → Safe { service with
        now := ns
        missed := service.missed ++ [(service.now, ns)] } := by
      intro hsafe
      refine ⟨within_append hsafe.accounted fun t ht => ?_, hsafe.sheltered⟩
      rcases hsafe.sheltered hmissed.1 with hopen | ⟨leaseNs, hlease⟩
      · exact .inl (covered_of_hasOpen hclocked.ledger hopen ht)
      · exact .inr ⟨leaseNs, hlease,
          (max_le (hclocked.lease leaseNs hlease) hclocked.sealedNs).trans ht⟩
    refine ⟨{ hclocked with
        sealedNs := hclocked.sealedNs.trans hns
        sealedFloorNs := hclocked.sealedFloorNs.trans hns
        startedNs := hclocked.startedNs.trans hns
        lease := fun leaseNs heq => (hclocked.lease leaseNs heq).trans hns
        heartbeats := fun beat hm => (hclocked.heartbeats beat hm).trans hns
        ledger := fun gap hm => (hclocked.ledger gap hm).trans hns
        missed := fun stretch hm => ?_ }, h.filed, h.quiet, fun hformal => ?_, ?_⟩
    · rcases List.mem_append.mp hm with hm | hm
      · exact (hclocked.missed stretch hm).trans hns
      · rw [List.mem_singleton.mp hm]
    · exact absurd (hmissed.1.symm.trans hformal) (by decide)
    · refine h.expects_still ⟨rfl, rfl, rfl, rfl, rfl, rfl, rfl, hns⟩ hsafe (fun hrecording => ?_) id
        (fun hready => absurd hready hmissed.2) fun _ => ⟨rfl, rfl, le_max_left _ _⟩
      exact hrecording.still ⟨rfl, rfl, rfl, rfl, rfl, rfl, rfl, hns⟩
        (within_append hrecording.recorded fun t ht =>
          covered_of_hasOpen hclocked.ledger (hrecording.sheltered hmissed.1 hmissed.2) ht)
  · rw [if_neg hmissed]
    refine ⟨{ hclocked with
        sealedNs := hclocked.sealedNs.trans hns
        sealedFloorNs := hclocked.sealedFloorNs.trans hns
        startedNs := hclocked.startedNs.trans hns
        lease := fun leaseNs heq => (hclocked.lease leaseNs heq).trans hns
        heartbeats := fun beat hm => (hclocked.heartbeats beat hm).trans hns
        ledger := fun gap hm => (hclocked.ledger gap hm).trans hns
        missed := fun stretch hm => (hclocked.missed stretch hm).trans hns },
      h.filed, h.quiet, h.informal, ?_⟩
    exact h.expects_still ⟨rfl, rfl, rfl, rfl, rfl, rfl, rfl, hns⟩ (fun hsafe => { hsafe with })
      (fun hrecording => { hrecording with }) id (fun _ _ hobserved => hobserved)
      fun _ => ⟨rfl, rfl, le_max_left _ _⟩

theorem early_eq_false_of_background {phase : Phase} (h : phase.background = true) :
    phase.early = false := by
  cases phase
  case opening why _ => cases why <;> first | rfl | exact nomatch h
  case saving why _ => cases why <;> first | rfl | exact nomatch h
  all_goals first | rfl | exact nomatch h

theorem early_eq_false_of_ending {phase : Phase} (h : phase.ending = true) :
    phase.early = false := by
  cases phase
  case opening why _ => cases why <;> first | rfl | exact nomatch h
  case saving why _ => cases why <;> first | rfl | exact nomatch h
  all_goals first | rfl | exact nomatch h

theorem Sound.heartbeat (h : service.Sound) {ns : Int}
    (hbackground : service.phase.background = true) (hns : ns ≤ service.now) :
    Sound { service with heartbeats := service.heartbeats ++ [ns] } := by
  refine ⟨{ h.clocked with heartbeats := fun beat hm => ?_ }, h.filed, fun hquiet => ?_, h.informal,
    h.expects_still ⟨rfl, rfl, rfl, rfl, rfl, rfl, rfl, le_rfl⟩ (fun hsafe => { hsafe with })
      (fun hrecording => { hrecording with }) id (fun _ _ hobserved => hobserved)
      fun _ => ⟨rfl, rfl, le_max_left _ _⟩⟩
  · rcases List.mem_append.mp hm with hm | hm
    · exact h.clocked.heartbeats beat hm
    · rwa [List.mem_singleton.mp hm]
  · rw [hbackground] at hquiet
    exact nomatch hquiet

/-- A lease is written while the ledger alone holds what was missed. -/
theorem Sound.writeRunning (h : service.Sound) {ns : Int} (hm : ns ∈ service.heartbeats) :
    Sound { service with
      heartbeats := service.heartbeats.erase ns
      lease := some (.running (max ns service.sealedFloorNs)) } := by
  have hactive : service.phase.background = true ∨ service.phase.ending = true := by
    by_contra hnot
    rw [not_or, Bool.not_eq_true, Bool.not_eq_true] at hnot
    rw [h.quiet hnot.1 hnot.2] at hm
    exact absurd hm List.not_mem_nil
  have hrecording : service.Recording := h.recording <|
    hactive.elim restarting_eq_false_of_background restarting_eq_false_of_ending
  have hearly : service.phase.early = false :=
    hactive.elim early_eq_false_of_background early_eq_false_of_ending
  refine ⟨{ h.clocked with
      lease := fun leaseNs heq => ?_
      heartbeats := fun beat hbeat => h.clocked.heartbeats beat (List.mem_of_mem_erase hbeat) },
    h.filed, fun hbackground hending => ?_, h.informal, ?_⟩
  · rw [← LeaseState.running.inj (Option.some.inj heq)]
    exact max_le (h.clocked.heartbeats ns hm) h.clocked.sealedFloorNs
  · change service.heartbeats.erase ns = []
    rw [h.quiet hbackground hending]
    rfl
  · refine h.expects_still ⟨rfl, rfl, rfl, rfl, rfl, rfl, rfl, le_rfl⟩ (fun _ => ?_)
      (fun hrecording => { hrecording with }) (fun _ => ⟨_, rfl⟩) (fun _ _ hobserved => hobserved)
      fun heq => absurd (hearly.symm.trans heq) (by decide)
    exact ⟨fun stretch hm t hfrom hto => .inl (hrecording.recorded stretch hm t hfrom hto),
      fun _ => .inr ⟨_, rfl⟩⟩

theorem Sound.sealDay (h : service.Sound) {ns : Int} (hphase : service.phase.maySeal = true)
    (hns : ns ≤ service.now) : Sound { service with sealedNs := ns } := by
  have hfacts : service.Recording ∧ service.phase.early = false := by
    have hexpects := h.expects
    unfold Expects at hexpects
    unfold Phase.maySeal at hphase
    split at hphase
    · rename_i heq
      rw [heq] at hexpects
      exact ⟨hexpects.1.recording, by rw [heq]; rfl⟩
    · rename_i heq
      rw [heq] at hexpects
      exact ⟨hexpects.1.recording, by rw [heq]; rfl⟩
    · exact ⟨h.recording (restarting_eq_false_of_ending hphase), early_eq_false_of_ending hphase⟩
  obtain ⟨hrecording, hearly⟩ := hfacts
  refine ⟨{ h.clocked with sealedNs := hns }, h.filed, h.quiet, h.informal, ?_⟩
  refine h.expects_still ⟨rfl, rfl, rfl, rfl, rfl, rfl, rfl, le_rfl⟩ (fun hsafe => ?_)
    (fun hrecording => { hrecording with }) id (fun _ _ hobserved => hobserved)
    fun heq => absurd (hearly.symm.trans heq) (by decide)
  exact ⟨fun stretch hm t hfrom hto => .inl (hrecording.recorded stretch hm t hfrom hto),
    hsafe.sheltered⟩

theorem Sound.recordSealed (h : service.Sound) : Sound { service with
    sealedFloorNs := max service.sealedFloorNs service.sealedNs } :=
  ⟨{ h.clocked with sealedFloorNs := max_le h.clocked.sealedFloorNs h.clocked.sealedNs },
    h.filed, h.quiet, h.informal,
    h.expects_still ⟨rfl, rfl, rfl, rfl, rfl, rfl, rfl, le_rfl⟩ (fun hsafe => { hsafe with })
      (fun hrecording => { hrecording with }) id (fun _ _ hobserved => hobserved)
      fun _ => ⟨rfl, rfl, le_rfl⟩⟩

/-! ## The program goes on -/

theorem Recording.setSources (h : service.Recording) (sources : SourcesState)
    (hsources : service.sources ≠ .ready ∨ sources = .ready) :
    Recording { service with sources := sources } where
  recorded := h.recorded
  sheltered hformal hne := h.sheltered hformal (hsources.resolve_right hne)

theorem Working.setSources (h : service.Working) (sources : SourcesState)
    (hsources : service.sources ≠ .ready ∨ sources = .ready) :
    Working { service with sources := sources } :=
  ⟨h.recording.setSources sources hsources, h.leased, h.storageGap⟩

/-- The sources go down with a storage gap open. -/
theorem Working.stopped (h : service.Working) {gapId : Nat}
    (hgap : service.storageGapId = some gapId) (sources : SourcesState) :
    Working { service with sources := sources } :=
  ⟨⟨h.recording.recorded, fun _ _ => (h.storageGap gapId hgap).hasOpen⟩, h.leased, h.storageGap⟩

theorem Sound.expects_at (h : service.Sound) {phase : Phase} (hphase : service.phase = phase) :
    Expects { service with phase := phase } := by
  rw [← hphase]
  exact h.expects

theorem Sound.boot (h : service.Sound) (hphase : service.phase = .off)
    (hclean : service.StorageFilesOpen) : Sound { service with
      phase := .reading
      startedNs := service.now
      sealedFloorNs := service.sealedNs } := by
  obtain ⟨hsafe, hdown⟩ := h.expects_at hphase
  refine ⟨{ h.clocked with sealedFloorNs := h.clocked.sealedNs, startedNs := le_rfl }, h.filed,
    fun _ _ => h.quiet (by rw [hphase]; rfl) (by rw [hphase]; rfl), h.informal, ?_⟩
  exact ⟨{ hsafe with }, hdown, hclean, le_rfl⟩

theorem Sound.list (h : service.Sound) (hphase : service.phase = .listing)
    {order : List OpenState} (hperm : order.Perm service.openRoot) :
    Sound { service with stale := order, phase := .leasing } := by
  have hlisting : Listing { service with phase := .listing } := h.expects_at hphase
  refine ⟨{ h.clocked with }, h.filed,
    fun _ _ => h.quiet (by rw [hphase]; rfl) (by rw [hphase]; rfl), h.informal, ?_⟩
  exact ⟨⟨{ hlisting.recording with }, hlisting.sources, hlisting.files⟩, hperm.subset⟩

theorem Sound.status (h : service.Sound) (hphase : service.phase = .checking)
    (hardLimited : Bool) : Sound (if hardLimited then { service with phase := .idle }
      else { service with sources := .started, phase := .waiting .boot }) := by
  obtain ⟨hworking, hdown⟩ := h.expects_at hphase
  have hquiet := h.quiet (by rw [hphase]; rfl) (by rw [hphase]; rfl)
  cases hardLimited with
  | true =>
    exact ⟨{ h.clocked with }, h.filed, fun _ _ => hquiet, h.informal,
      ⟨⟨{ hworking.recording with }, hworking.leased, hworking.storageGap⟩, .inr hdown⟩⟩
  | false =>
    have hstarted := hworking.setSources .started (.inl (by rw [hdown]; decide))
    exact ⟨{ h.clocked with }, h.filed, fun _ _ => hquiet, h.informal,
      ⟨⟨{ hstarted.recording with }, hstarted.leased, hstarted.storageGap⟩, rfl⟩⟩

theorem Sound.waitReady (h : service.Sound) {starter : Starter}
    (hphase : service.phase = .waiting starter) : Sound { service with
      sources := .ready
      stale := []
      phase := .closing starter service.stale } := by
  obtain ⟨hworking, -⟩ := h.expects_at hphase
  have hready := hworking.setSources .ready (.inr rfl)
  refine ⟨{ h.clocked with }, h.filed, fun hbackground hending => ?_, h.informal,
    ⟨⟨{ hready.recording with }, hready.leased, hready.storageGap⟩, rfl⟩⟩
  cases starter with
  | boot => exact h.quiet (by rw [hphase]; rfl) (by rw [hphase]; rfl)
  | storage => exact nomatch hbackground

theorem Sound.timeout (h : service.Sound) (hphase : service.phase = .waiting .storage) :
    Sound { service with sources := .stopping, phase := .stopping } := by
  obtain ⟨hworking, hstarted⟩ := h.expects_at hphase
  have hstopping := hworking.setSources .stopping (.inl (by rw [hstarted]; decide))
  exact ⟨{ h.clocked with }, h.filed, fun hbackground => (nomatch hbackground), h.informal,
    ⟨⟨{ hstopping.recording with }, hstopping.leased, hstopping.storageGap⟩, rfl⟩⟩

theorem Working.stopForStorage (hclocked : service.Clocked) (hfiled : service.Filed)
    (hinformal : service.formal = false → service.missed = []) (h : service.Working)
    (hgap : service.storageGapId ≠ none) : service.stopForStorage.Sound := by
  obtain ⟨gapId, hgap⟩ := Option.ne_none_iff_exists'.mp hgap
  unfold CollectorService.stopForStorage
  split
  · have hstopping := h.stopped hgap .stopping
    exact ⟨{ hclocked with }, hfiled, fun hbackground => (nomatch hbackground), hinformal,
      ⟨⟨{ hstopping.recording with }, hstopping.leased, hstopping.storageGap⟩, rfl⟩⟩
  · rename_i hdown
    exact ⟨{ hclocked with }, hfiled, fun hbackground => (nomatch hbackground), hinformal,
      ⟨⟨{ h.recording with }, h.leased, h.storageGap⟩, .inr (not_not.mp hdown)⟩⟩

theorem Sound.turn (h : service.Sound) (hphase : service.phase = .idle) (hardLimited : Bool) :
    (service.turn hardLimited).Sound := by
  obtain ⟨hworking, hsettled⟩ := h.expects_at hphase
  have hworking : service.Working :=
    ⟨{ hworking.recording with }, hworking.leased, hworking.storageGap⟩
  unfold CollectorService.turn
  split
  · exact ⟨{ h.clocked with }, h.filed, fun hbackground => (nomatch hbackground), h.informal,
      ⟨{ hworking.recording with }, hworking.leased, hsettled, le_rfl⟩⟩
  · rename_i gapId hgap
    exact hworking.stopForStorage h.clocked h.filed h.informal (by rw [hgap]; exact nofun)
  · exact h
  · rename_i gapId hgap
    split
    · rename_i hup
      have hready : service.sources = .ready := hsettled.resolve_right hup
      exact ⟨{ h.clocked with }, h.filed, fun hbackground => (nomatch hbackground), h.informal,
        ⟨⟨{ hworking.recording with }, hworking.leased, hworking.storageGap⟩, hready,
          h.clocked.missed⟩⟩
    · have hstarted := hworking.stopped hgap .started
      exact ⟨{ h.clocked with }, h.filed, fun hbackground => (nomatch hbackground), h.informal,
        ⟨⟨{ hstarted.recording with }, hstarted.leased, hstarted.storageGap⟩, rfl⟩⟩

theorem Sound.closeNext (hclocked : service.Clocked) (hfiled : service.Filed)
    (hinformal : service.formal = false → service.missed = []) (hworking : service.Working)
    (hready : service.sources = .ready) {starter : Starter}
    (hquiet : starter = .boot → service.heartbeats = []) (todo : List OpenState) :
    (service.closeNext starter todo).Sound := by
  have hworking' : ∀ phase, Working { service with phase := phase } := fun phase =>
    ⟨{ hworking.recording with }, hworking.leased, hworking.storageGap⟩
  unfold CollectorService.closeNext
  split
  · refine ⟨{ hclocked with }, hfiled, fun hbackground _ => ?_, hinformal, ⟨hworking' _, hready⟩⟩
    cases starter with
    | boot => exact hquiet rfl
    | storage => exact nomatch hbackground
  · rename_i gap todo
    split
    · refine ⟨{ hclocked with }, hfiled, fun hbackground _ => ?_, hinformal, ⟨hworking' _, hready⟩⟩
      cases starter with
      | boot => exact hquiet rfl
      | storage => exact nomatch hbackground
    · rename_i hother
      refine ⟨{ hclocked with }, hfiled, fun hbackground _ => ?_, hinformal,
        ⟨hworking' _, hready, hclocked.missed, hother⟩⟩
      cases starter with
      | boot => exact hquiet rfl
      | storage => exact nomatch hbackground

/-- The lease of this boot takes over from the gaps of the last one. -/
theorem Sound.leaseWritten (h : service.Sound) (hphase : service.phase = .leasing) :
    Sound { service.effect with
      storageGapId := storageOf service.stale
      phase := .checking } := by
  obtain ⟨hlisting, hstale⟩ := h.expects_at hphase
  have heffect : service.effect = { service with
      lease := some (.running (max service.startedNs service.sealedFloorNs)) } := by
    unfold effect
    rw [hphase]
  have hclocked := h.effect_clocked
  rw [heffect] at hclocked ⊢
  refine ⟨{ hclocked with }, h.filed,
    fun _ _ => h.quiet (by rw [hphase]; rfl) (by rw [hphase]; rfl), h.informal, ?_⟩
  refine ⟨⟨{ hlisting.recording with }, ⟨_, rfl⟩, fun gapId hgap => ?_⟩, hlisting.sources⟩
  obtain ⟨file, hfind, hid⟩ := Option.map_eq_some_iff.mp hgap
  have hfile := hstale (List.mem_of_find?_eq_some hfind)
  have hstorage : file.reason = .storageExhausted := by
    simpa using List.find?_some hfind
  obtain ⟨gap, hm, hgapId⟩ := h.filed file hfile
  exact ⟨gap, hm, hgapId.trans hid, hlisting.files file hfile hstorage gap hm hgapId⟩

theorem Sound.recoveryPublished (h : service.Sound) {fromNs : Int}
    (hphase : service.phase = .opening .recovery fromNs) : Sound { service.effect with
      phase := .saving .recovery service.ledger.length } := by
  obtain ⟨hsafe, hdown, hfiles, hfrom, ns, hlease, hle⟩ := h.expects_at hphase
  have heffect : service.effect = { service with
      ledger := publishOpen .collectorStopped fromNs service.ledger } := by
    unfold effect
    rw [hphase]
    rfl
  have hclocked := h.effect_clocked
  have hfiled := h.effect_filed
  rw [heffect] at hclocked hfiled ⊢
  refine ⟨{ hclocked with }, hfiled,
    fun _ _ => h.quiet (by rw [hphase]; rfl) (by rw [hphase]; rfl), h.informal,
    ⟨⟨⟨?_, fun _ _ => (isOpen_publishOpen _ _).hasOpen⟩, hdown, ?_⟩, isOpen_publishOpen _ _⟩⟩
  · -- what the lease held is in the new gap
    intro stretch hm t hfrom hto
    rcases hsafe.accounted stretch hm t hfrom hto with hcovered | ⟨leaseNs, hrunning, hpending⟩
    · exact covered_publishOpen _ _ hcovered
    · have hsame : ns = leaseNs := LeaseState.running.inj (Option.some.inj (hlease.symm.trans hrunning))
      rw [hsame] at hle
      exact covered_publishOpen_self _ (hle.trans hpending)
  · intro file hfile hreason gap hm hid
    rcases List.mem_append.mp hm with hm | hm
    · exact hfiles file hfile hreason gap hm hid
    · rw [List.mem_singleton.mp hm]

theorem Sound.recoverySaved (h : service.Sound) {gapId : Nat}
    (hphase : service.phase = .saving .recovery gapId) :
    Sound { service.effect with phase := .listing } := by
  obtain ⟨hlisting, -⟩ := h.expects_at hphase
  have heffect : service.effect = { service with
      openRoot := service.openRoot ++ [⟨gapId, .collectorStopped⟩] } := by
    unfold effect
    rw [hphase]
    rfl
  have hfiled := h.effect_filed
  rw [heffect] at hfiled ⊢
  refine ⟨{ h.clocked with }, hfiled,
    fun _ _ => h.quiet (by rw [hphase]; rfl) (by rw [hphase]; rfl), h.informal,
    ⟨{ hlisting.recording with }, hlisting.sources, ?_⟩⟩
  intro file hfile hreason
  rcases List.mem_append.mp hfile with hfile | hfile
  · exact hlisting.files file hfile hreason
  · rw [List.mem_singleton.mp hfile] at hreason
    exact nomatch hreason

theorem Sound.readLease (h : service.Sound) (hphase : service.phase = .reading) :
    Sound (match service.lease with
      | some (.running affectedFromNs) => { service with
          phase := .opening .recovery (max affectedFromNs service.sealedFloorNs) }
      | _ => { service with phase := .listing }) := by
  obtain ⟨hsafe, hdown, hfiles, hfloor⟩ := h.expects_at hphase
  have hquiet := h.quiet (by rw [hphase]; rfl) (by rw [hphase]; rfl)
  split
  · rename_i ns hlease
    exact ⟨{ h.clocked with }, h.filed, fun _ _ => hquiet, h.informal,
      ⟨{ hsafe with }, hdown, hfiles, max_le (h.clocked.lease ns hlease) h.clocked.sealedFloorNs,
        ns, hlease, max_le_max le_rfl hfloor⟩⟩
  · rename_i hnot
    refine ⟨{ h.clocked with }, h.filed, fun _ _ => hquiet, h.informal,
      ⟨⟨fun stretch hm t hfrom hto => ?_, fun hformal _ => ?_⟩, hdown, hfiles⟩⟩
    · rcases hsafe.accounted stretch hm t hfrom hto with hcovered | ⟨ns, hlease, -⟩
      · exact hcovered
      · exact absurd hlease (hnot ns)
    · rcases hsafe.sheltered hformal with hopen | ⟨ns, hlease⟩
      · exact hopen
      · exact absurd hlease (hnot ns)

theorem Sound.openPublished (h : service.Sound) {why : Opening} {fromNs : Int}
    (hphase : service.phase = .opening why fromNs) : Sound { service.effect with
      phase := .saving why service.ledger.length } := by
  cases why with
  | recovery => exact h.recoveryPublished hphase
  | storage =>
    obtain ⟨hrecording, hleased, hsettled, -⟩ := h.expects_at hphase
    have heffect : service.effect = { service with
        ledger := publishOpen .storageExhausted fromNs service.ledger } := by
      unfold effect
      rw [hphase]
      rfl
    have hclocked := h.effect_clocked
    have hfiled := h.effect_filed
    rw [heffect] at hclocked hfiled ⊢
    exact ⟨{ hclocked with }, hfiled, fun hbackground => (nomatch hbackground), h.informal,
      ⟨{ hrecording.opened .storageExhausted fromNs with }, hleased, hsettled,
        isOpen_publishOpen _ _⟩⟩
  | shutdown =>
    obtain ⟨hrecording, hleased, -⟩ := h.expects_at hphase
    have heffect : service.effect = { service with
        ledger := publishOpen .collectorStopped fromNs service.ledger } := by
      unfold effect
      rw [hphase]
      rfl
    have hclocked := h.effect_clocked
    have hfiled := h.effect_filed
    rw [heffect] at hclocked hfiled ⊢
    exact ⟨{ hclocked with }, hfiled, fun _ hending => (nomatch hending), h.informal,
      ⟨{ hrecording.opened .collectorStopped fromNs with }, hleased, isOpen_publishOpen _ _⟩⟩

theorem Sound.storageSaved (h : service.Sound) {gapId : Nat}
    (hphase : service.phase = .saving .storage gapId) :
    Sound { service.effect with storageGapId := some gapId }.stopForStorage := by
  obtain ⟨hrecording, hleased, -, hopen⟩ := h.expects_at hphase
  have heffect : service.effect = { service with
      openRoot := service.openRoot ++ [⟨gapId, .storageExhausted⟩] } := by
    unfold effect
    rw [hphase]
    rfl
  have hfiled := h.effect_filed
  rw [heffect] at hfiled ⊢
  refine Working.stopForStorage { h.clocked with } hfiled h.informal
    ⟨{ hrecording with }, hleased, fun other heq => ?_⟩ nofun
  rw [← Option.some.inj heq]
  exact hopen

theorem stopTask_ne_ready (sources : SourcesState) : stopTask sources ≠ .ready := by
  cases sources <;> decide

theorem Sound.shutdownSaved (h : service.Sound) {gapId : Nat}
    (hphase : service.phase = .saving .shutdown gapId) : Sound { service.effect with
      sources := stopTask service.effect.sources
      phase := .stopSources } := by
  obtain ⟨hrecording, -, hopen⟩ := h.expects_at hphase
  have heffect : service.effect = { service with
      openRoot := service.openRoot ++ [⟨gapId, .collectorStopped⟩] } := by
    unfold effect
    rw [hphase]
    rfl
  have hfiled := h.effect_filed
  rw [heffect] at hfiled ⊢
  exact ⟨{ h.clocked with }, hfiled, fun _ hending => (nomatch hending), h.informal,
    ⟨⟨hrecording.recorded, fun _ _ => hopen.hasOpen⟩, stopTask_ne_ready _⟩⟩

theorem Sound.closedPublished (h : service.Sound) {why : Closing} {gap : OpenState} {ns : Int}
    (hphase : service.phase = .publishing why gap ns) :
    Sound { service.effect with phase := .removing why gap } := by
  have heffect : service.effect = { service with
      ledger := publishClosed gap.gapId ns service.ledger } := by
    unfold effect
    rw [hphase]
  have hclocked := h.effect_clocked
  have hfiled := h.effect_filed
  rw [heffect] at hclocked hfiled ⊢
  cases why with
  | stale starter todo =>
    obtain ⟨hworking, hready, hobserved, hother⟩ := h.expects_at hphase
    have hclosed := hworking.recording.closed gap.gapId hready hobserved
    refine ⟨{ hclocked with }, hfiled, fun hbackground _ => ?_, h.informal,
      ⟨⟨{ hclosed with }, hworking.leased, fun gapId hgap => ?_⟩, hready⟩⟩
    · cases starter with
      | boot => exact h.quiet (by rw [hphase]; rfl) (by rw [hphase]; rfl)
      | storage => exact nomatch hbackground
    · refine (hworking.storageGap gapId hgap).publishClosed ns fun heq => hother ?_
      rw [← heq]
      exact hgap
  | storage =>
    obtain ⟨hworking, hready, hobserved⟩ := h.expects_at hphase
    exact ⟨{ hclocked with }, hfiled, fun hbackground => (nomatch hbackground), h.informal,
      ⟨{ hworking.recording.closed gap.gapId hready hobserved with }, hworking.leased, hready⟩⟩

theorem Sound.fileRemoved (h : service.Sound) {why : Closing} {gap : OpenState}
    (hphase : service.phase = .removing why gap) : Sound (match why with
      | .stale starter todo => { service.effect with phase := .closing starter todo }
      | .storage => { service.effect with storageGapId := none, phase := .idle }) := by
  have heffect : service.effect = { service with
      openRoot := service.openRoot.filter (·.gapId ≠ gap.gapId) } := by
    unfold effect
    rw [hphase]
  have hfiled := h.effect_filed
  rw [heffect] at hfiled ⊢
  cases why with
  | stale starter todo =>
    obtain ⟨hworking, hready⟩ := h.expects_at hphase
    refine ⟨{ h.clocked with }, hfiled, fun hbackground _ => ?_, h.informal,
      ⟨⟨{ hworking.recording with }, hworking.leased, hworking.storageGap⟩, hready⟩⟩
    cases starter with
    | boot => exact h.quiet (by rw [hphase]; rfl) (by rw [hphase]; rfl)
    | storage => exact nomatch hbackground
  | storage =>
    obtain ⟨hrecording, hleased, hready⟩ := h.expects_at hphase
    exact ⟨{ h.clocked with }, hfiled, fun hbackground => (nomatch hbackground), h.informal,
      ⟨⟨{ hrecording with }, hleased, fun _ heq => nomatch heq⟩, .inl hready⟩⟩

theorem Sound.marked (h : service.Sound) {starter : Starter}
    (hphase : service.phase = .marking starter) : (service.effect.afterMark starter).Sound := by
  obtain ⟨hworking, hready⟩ := h.expects_at hphase
  have heffect : service.effect = { service with formal := true } := by
    unfold effect
    rw [hphase]
  have hworking' : ∀ phase, Working { service with formal := true, phase := phase } := fun phase =>
    ⟨⟨hworking.recording.recorded, fun _ hne => absurd hready hne⟩, hworking.leased,
      hworking.storageGap⟩
  rw [heffect]
  unfold afterMark
  split
  · exact ⟨{ h.clocked with }, h.filed, fun hbackground => (nomatch hbackground),
      fun heq => (nomatch heq), ⟨hworking' _, hready, h.clocked.missed⟩⟩
  · exact ⟨{ h.clocked with }, h.filed, fun hbackground => (nomatch hbackground),
      fun heq => (nomatch heq), ⟨hworking' _, .inl hready⟩⟩

/-- A day is sealed, or a stop comes to its end: nothing on the disk changes. -/
theorem Sound.stoppedSources (h : service.Sound) (hphase : service.phase = .stopping) :
    Sound { service with sources := .down, phase := .idle } := by
  obtain ⟨hworking, hstopping⟩ := h.expects_at hphase
  have hdown := hworking.setSources .down (.inl (by rw [hstopping]; decide))
  exact ⟨{ h.clocked with }, h.filed, fun hbackground => (nomatch hbackground), h.informal,
    ⟨⟨{ hdown.recording with }, hdown.leased, hdown.storageGap⟩, .inr rfl⟩⟩

theorem Sound.sourcesGone (h : service.Sound) (hphase : service.phase = .stopSources) :
    Sound { service with sources := .down, phase := .cleaning } := by
  obtain ⟨hrecording, hsources⟩ := h.expects_at hphase
  exact ⟨{ h.clocked with }, h.filed, fun _ hending => (nomatch hending), h.informal,
    ⟨{ hrecording.setSources .down (.inl hsources) with }, nofun⟩⟩

theorem Sound.cleaned (h : service.Sound) (hphase : service.phase = .cleaning) :
    Sound { service.effect with phase := .exiting } := by
  obtain ⟨hrecording, hsources⟩ := h.expects_at hphase
  have heffect : service.effect = { service with lease := some .clean } := by
    unfold effect
    rw [hphase]
  have hclocked := h.effect_clocked
  rw [heffect] at hclocked ⊢
  exact ⟨{ hclocked with }, h.filed, fun _ hending => (nomatch hending), h.informal,
    ⟨{ hrecording with }, hsources⟩⟩

theorem Sound.sealed (h : service.Sound) {starter : Starter}
    (hphase : service.phase = .sealing starter) :
    Sound { service with phase := .marking starter } := by
  obtain ⟨hworking, hready⟩ := h.expects_at hphase
  refine ⟨{ h.clocked with }, h.filed, fun hbackground _ => ?_, h.informal,
    ⟨⟨{ hworking.recording with }, hworking.leased, hworking.storageGap⟩, hready⟩⟩
  cases starter with
  | boot => exact h.quiet (by rw [hphase]; rfl) (by rw [hphase]; rfl)
  | storage => exact nomatch hbackground

theorem Sound.closedNext (h : service.Sound) {starter : Starter} {todo : List OpenState}
    (hphase : service.phase = .closing starter todo) : (service.closeNext starter todo).Sound := by
  obtain ⟨hworking, hready⟩ := h.expects_at hphase
  refine Sound.closeNext h.clocked h.filed h.informal
    ⟨{ hworking.recording with }, hworking.leased, hworking.storageGap⟩ hready (fun hboot => ?_) todo
  rw [hboot] at hphase
  exact h.quiet (by rw [hphase]; rfl) (by rw [hphase]; rfl)

/-- The end of the process leaves a boot all that it needs. -/
theorem Sound.crash (h : service.Sound) : service.exit.Sound :=
  exit_sound h.clocked h.filed h.informal h.safe

theorem Sound.exit_effect (h : service.Sound) : service.effect.exit.Sound :=
  exit_sound h.effect_clocked h.effect_filed h.effect_informal h.effect_safe

theorem shutdown_sound (hclocked : service.Clocked) (hfiled : service.Filed)
    (hinformal : service.formal = false → service.missed = []) (hrecording : service.Recording)
    (hleased : Leased service.lease) : service.shutdown.Sound := by
  unfold shutdown
  split
  · exact ⟨{ hclocked with }, hfiled, fun _ hending => (nomatch hending), hinformal,
      ⟨{ hrecording with }, hleased, le_rfl⟩⟩
  · rename_i hdown
    refine ⟨{ hclocked with }, hfiled, fun _ hending => (nomatch hending), hinformal,
      ⟨{ hrecording with }, ?_⟩⟩
    rw [not_not.mp hdown]
    decide

theorem Sound.stop (h : service.Sound) (hbackground : service.phase.background = true)
    (landed : Bool) : (if landed then service.effect else service).shutdown.Sound := by
  cases landed with
  | true =>
    obtain ⟨hrecording, hleased⟩ := h.effect_background hbackground
    exact shutdown_sound h.effect_clocked h.effect_filed h.effect_informal hrecording hleased
  | false =>
    obtain ⟨hrecording, hleased⟩ := h.background hbackground
    exact shutdown_sound h.clocked h.filed h.informal hrecording hleased

theorem raised_sound (hclocked : service.Clocked) (hfiled : service.Filed)
    (hinformal : service.formal = false → service.missed = []) (hsafe : service.Safe)
    (hquiet : service.phase.background = false → service.phase.ending = false →
      service.heartbeats = [])
    (hbackground : service.phase.background = false) : service.raised.Sound := by
  unfold raised
  split
  · exact exit_sound hclocked hfiled hinformal hsafe
  · rename_i hphase
    rw [not_or, Bool.not_eq_true, Bool.not_eq_true] at hphase
    exact ⟨{ hclocked with }, hfiled, fun _ _ => hquiet hbackground hphase.2, hinformal,
      ⟨{ hsafe with }, stopTask_ne_ready _⟩⟩

theorem Sound.fail (h : service.Sound) (hbackground : service.phase.background = false)
    (landed : Bool) : (if landed then service.effect else service).raised.Sound := by
  cases landed with
  | true =>
    refine raised_sound h.effect_clocked h.effect_filed h.effect_informal h.effect_safe ?_ ?_
    · rw [if_pos rfl, effect_phase, effect_heartbeats]
      exact h.quiet
    · rw [if_pos rfl, effect_phase]
      exact hbackground
  | false => exact raised_sound h.clocked h.filed h.informal h.safe h.quiet hbackground

theorem Sound.proceed (h : service.Sound) (hproceed : service.proceed = some after) :
    after.Sound := by
  unfold CollectorService.proceed at hproceed
  dsimp only at hproceed
  split at hproceed
  all_goals rename_i hphase
  case h_1 =>
    have hread := h.readLease hphase
    have heffect : service.effect = service := by
      unfold effect
      rw [hphase]
    rw [heffect] at hproceed
    cases hlease : service.lease with
    | none =>
      rw [hlease] at hread hproceed
      rwa [← Option.some.inj hproceed]
    | some lease =>
      rw [hlease] at hread hproceed
      cases lease <;> rwa [← Option.some.inj hproceed]
  case h_2 => rw [← Option.some.inj hproceed]; exact h.openPublished hphase
  case h_3 => rw [← Option.some.inj hproceed]; exact h.recoverySaved hphase
  case h_4 => rw [← Option.some.inj hproceed]; exact h.storageSaved hphase
  case h_5 => rw [← Option.some.inj hproceed]; exact h.shutdownSaved hphase
  case h_6 =>
    have hleaseWritten := h.leaseWritten hphase
    have hstale : service.effect.stale = service.stale := by
      unfold effect
      rw [hphase]
    rw [← hstale] at hleaseWritten
    rwa [← Option.some.inj hproceed]
  case h_7 =>
    have heffect : service.effect = service := by
      unfold effect
      rw [hphase]
    rw [heffect] at hproceed
    rw [← Option.some.inj hproceed]
    exact h.closedNext hphase
  case h_8 => rw [← Option.some.inj hproceed]; exact h.closedPublished hphase
  case h_9 => rw [← Option.some.inj hproceed]; exact h.fileRemoved hphase
  case h_10 => rw [← Option.some.inj hproceed]; exact h.fileRemoved hphase
  case h_11 =>
    have heffect : service.effect = service := by
      unfold effect
      rw [hphase]
    rw [heffect] at hproceed
    rw [← Option.some.inj hproceed]
    exact h.sealed hphase
  case h_12 => rw [← Option.some.inj hproceed]; exact h.marked hphase
  case h_13 =>
    have heffect : service.effect = service := by
      unfold effect
      rw [hphase]
    rw [heffect] at hproceed
    rw [← Option.some.inj hproceed]
    exact h.stoppedSources hphase
  case h_14 =>
    have heffect : service.effect = service := by
      unfold effect
      rw [hphase]
    rw [heffect] at hproceed
    rw [← Option.some.inj hproceed]
    exact h.sourcesGone hphase
  case h_15 => rw [← Option.some.inj hproceed]; exact h.cleaned hphase
  case h_16 => rw [← Option.some.inj hproceed]; exact h.exit_effect
  case h_17 => rw [← Option.some.inj hproceed]; exact h.exit_effect
  all_goals exact nomatch hproceed

/-! ## Runs -/

theorem Step.sound {event : ServiceEvent} (hstep : Step service event after)
    (hclean : service.BootsClean event) (h : service.Sound) : after.Sound := by
  cases event with
  | tick ns =>
    obtain ⟨hns, rfl⟩ := Option.ite_some_none_eq_some.mp hstep
    exact h.tick hns
  | boot =>
    obtain ⟨hphase, rfl⟩ := Option.ite_some_none_eq_some.mp hstep
    exact h.boot hphase (hclean rfl)
  | list order =>
    obtain ⟨hphase, rfl⟩ := Option.ite_some_none_eq_some.mp hstep
    exact h.list hphase.1 hphase.2
  | status hardLimited =>
    obtain ⟨hphase, rfl⟩ := Option.ite_some_none_eq_some.mp hstep
    exact h.status hphase hardLimited
  | ready =>
    unfold Step next at hstep
    dsimp only at hstep
    split at hstep
    · rename_i starter hphase
      rw [← Option.some.inj hstep]
      exact h.waitReady hphase
    · exact nomatch hstep
  | timeout =>
    obtain ⟨hphase, rfl⟩ := Option.ite_some_none_eq_some.mp hstep
    exact h.timeout hphase
  | turn hardLimited =>
    obtain ⟨hphase, rfl⟩ := Option.ite_some_none_eq_some.mp hstep
    exact h.turn hphase hardLimited
  | step => exact h.proceed hstep
  | stop landed =>
    obtain ⟨hbackground, rfl⟩ := Option.ite_some_none_eq_some.mp hstep
    exact h.stop hbackground landed
  | fail landed =>
    obtain ⟨hphase, heq⟩ := Option.ite_none_left_eq_some.mp hstep
    rw [not_or, not_or, Bool.not_eq_true] at hphase
    rw [← Option.some.inj heq]
    exact h.fail hphase.2.1 landed
  | crash =>
    obtain ⟨-, heq⟩ := Option.ite_none_left_eq_some.mp hstep
    rw [← Option.some.inj heq]
    exact h.crash
  | heartbeat watermarkNs =>
    obtain ⟨hbeat, rfl⟩ := Option.ite_some_none_eq_some.mp hstep
    exact h.heartbeat hbeat.1 hbeat.2
  | writeRunning watermarkNs =>
    obtain ⟨hm, rfl⟩ := Option.ite_some_none_eq_some.mp hstep
    exact h.writeRunning hm
  | sealDay dayEndNs =>
    obtain ⟨hday, rfl⟩ := Option.ite_some_none_eq_some.mp hstep
    exact h.sealDay hday.1 hday.2.2
  | recordSealed =>
    obtain ⟨-, heq⟩ := Option.ite_none_left_eq_some.mp hstep
    rw [← Option.some.inj heq]
    exact h.recordSealed

theorem fresh_sound (now : Nat) : (fresh now).Sound := by
  have hnow : (0 : Int) ≤ now := Int.natCast_nonneg now
  refine ⟨⟨hnow, hnow, le_rfl, nofun, nofun, nofun, nofun⟩, nofun, fun _ _ => rfl, fun _ => rfl, ?_⟩
  exact ⟨⟨nofun, nofun⟩, rfl⟩

/-- For every order of boots, stops, failures, crashes and storage stops: every instant since the
formal start at which the sources were not ready lies in a gap of the ledger; until a boot has
published its recovery gap, the lease may hold it for that gap. Whenever the sources are not ready,
a gap is open or the lease says that the collector was running. No boot may have found the file of
a storage gap that was already closed: it would take it for an open one. -/
theorem run_downtime_recorded {now : Nat} {events : List ServiceEvent}
    (hrun : Run (Guarded BootsClean Step) (fresh now) events service) :
    Within (fun t => Covered service.ledger t ∨
        service.phase.restarting = true ∧ Pending service.lease service.sealedNs t)
      service.missed ∧
    (service.formal = true → service.sources ≠ .ready →
      HasOpen service.ledger ∨ service.phase.restarting = true ∧ Leased service.lease) := by
  have h : service.Sound := hrun.preserves (fun h hstep => hstep.2.sound hstep.1 h) (fresh_sound now)
  cases hphase : service.phase.restarting with
  | false =>
    have hrecording := h.recording hphase
    exact ⟨fun stretch hm t hfrom hto => .inl (hrecording.recorded stretch hm t hfrom hto),
      fun hformal hsources => .inl (hrecording.sheltered hformal hsources)⟩
  | true =>
    refine ⟨fun stretch hm t hfrom hto => ?_, fun hformal _ => ?_⟩
    · exact (h.safe.accounted stretch hm t hfrom hto).imp_right fun hpending => ⟨rfl, hpending⟩
    · exact (h.safe.sheltered hformal).imp_right fun hleased => ⟨rfl, hleased⟩

/-- A storage stop, and a crash whose gap the next boot has just published. -/
theorem run_downtime_recorded_crash : ∃ service : CollectorService,
    service.missed = [(20, 30), (30, 40), (50, 60), (60, 70)] ∧
    service.ledger = [⟨0, .storageExhausted, 20, some 40⟩, ⟨1, .collectorStopped, 45, none⟩] ∧
    Within (fun t => Covered service.ledger t ∨
        service.phase.restarting = true ∧ Pending service.lease service.sealedNs t)
      service.missed := by
  have hrun : ∃ service : CollectorService,
      Run (Guarded BootsClean Step) (fresh 10)
        [.boot, .step, .list [], .step, .status false, .ready, .step, .step, .step, .tick 20,
          .turn true, .step, .step, .tick 30, .step, .turn false, .tick 40, .ready, .step, .step,
          .step, .step, .step, .tick 50, .heartbeat 45, .writeRunning 45, .crash, .tick 60, .boot,
          .step, .tick 70, .step] service ∧
      service.missed = [(20, 30), (30, 40), (50, 60), (60, 70)] ∧
      service.ledger =
        [⟨0, .storageExhausted, 20, some 40⟩, ⟨1, .collectorStopped, 45, none⟩] := by
    refine ⟨_, .cons ⟨fun _ => by decide, rfl⟩ <| .cons ⟨nofun, rfl⟩ <| .cons ⟨nofun, rfl⟩ <|
      .cons ⟨nofun, rfl⟩ <| .cons ⟨nofun, rfl⟩ <| .cons ⟨nofun, rfl⟩ <| .cons ⟨nofun, rfl⟩ <|
      .cons ⟨nofun, rfl⟩ <| .cons ⟨nofun, rfl⟩ <| .cons ⟨nofun, rfl⟩ <| .cons ⟨nofun, rfl⟩ <|
      .cons ⟨nofun, rfl⟩ <| .cons ⟨nofun, rfl⟩ <| .cons ⟨nofun, rfl⟩ <| .cons ⟨nofun, rfl⟩ <|
      .cons ⟨nofun, rfl⟩ <| .cons ⟨nofun, rfl⟩ <| .cons ⟨nofun, rfl⟩ <| .cons ⟨nofun, rfl⟩ <|
      .cons ⟨nofun, rfl⟩ <| .cons ⟨nofun, rfl⟩ <| .cons ⟨nofun, rfl⟩ <| .cons ⟨nofun, rfl⟩ <|
      .cons ⟨nofun, rfl⟩ <| .cons ⟨nofun, rfl⟩ <| .cons ⟨nofun, rfl⟩ <| .cons ⟨nofun, rfl⟩ <|
      .cons ⟨nofun, rfl⟩ <| .cons ⟨fun _ => by decide, rfl⟩ <| .cons ⟨nofun, rfl⟩ <|
      .cons ⟨nofun, rfl⟩ <| .cons ⟨nofun, rfl⟩ (.nil _), by decide, by decide⟩
  obtain ⟨service, hrun, hmissed, hledger⟩ := hrun
  exact ⟨service, hmissed, hledger, (run_downtime_recorded hrun).1⟩

end CollectorService

end MiryFormal
