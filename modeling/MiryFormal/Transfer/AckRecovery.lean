import MiryFormal.Transfer.AckResumption
import MiryFormal.Transfer.NoLoss

/-!
# Interrupted calls of `apply_acks`

Whatever calls were interrupted before, a call that comes to its end leaves the files that an
uninterrupted one leaves. It enters every applied chunk, unless an append has broken off within
a line: the next append to that day completes the broken line with its own first event.
-/

namespace MiryFormal

set_option autoImplicit false

open Program TransferOp TransferFiles

/-- Calls from `s`, each cut after some operations, where the append of a call may fail. `good`
holds of each when it starts. -/
inductive Interrupted (sha256 : Bytes → String) (good : ApplyCall → TransferFiles → Prop)
    (s : TransferFiles) : TransferFiles → Prop
  | none : Interrupted sha256 good s s
  | again {s' : TransferFiles} (h : Interrupted sha256 good s s') (call : ApplyCall)
      (fault : Option AppendFault) (n : Nat) (hgood : good call s') :
      Interrupted sha256 good s
        (call.applyAcks.cut (fun op s => .ok (faulty sha256 fault op s)) n s')

/-- An entry of the chunk. -/
def EventId.isEntry (chunkId : String) (kind : TransferEventKind) : EventId → Bool
  | .ofAck entered _ kind' => entered = chunkId ∧ kind' = kind
  | .ofRun .. => false

namespace TransferFiles

/-- The entries of a chunk in the ledger, de-duplicated by `event_id`. -/
def entriesOf (s : TransferFiles) (chunkId : String) (kind : TransferEventKind) : List EventId :=
  s.ledgerIds.dedup.filter (EventId.isEntry chunkId kind)

/-- The chunks with their manifests, the tombstones, the ACKs and the transactions are the same. -/
structure SameSpool (s s' : TransferFiles) : Prop where
  chunks : s'.chunkFiles = s.chunkFiles
  acks : s'.edge.acks = s.edge.acks
  applying : s'.edge.applying = s.edge.applying

/-- The ledger of `final` has the entries of the chunks that were pending in `s`. -/
structure EnteredOnce (s final : TransferFiles) : Prop where
  once : ∀ applied ∈ s.pending, ∀ eventId ∈ entryIds applied,
    final.ledgerIds.dedup.count eventId = 1
  only : ∀ chunkId ms kind, .ofAck chunkId ms kind ∈ final.ledgerIds →
    .ofAck chunkId ms kind ∈ s.ledgerIds ∨ .ofAck chunkId ms kind ∈ s.pending.flatMap entryIds
  /-- Where the chunk has this transaction only, and no other ACK of it was entered before. -/
  ofChunk : ∀ applied ∈ s.pending,
    (∀ other ∈ s.pending, other.2.chunkId = applied.2.chunkId → other = applied) →
      (∀ ms kind, .ofAck applied.2.chunkId ms kind ∈ s.ledgerIds →
        ms = utcText applied.1.durableAt) →
        (final.entriesOf applied.2.chunkId .ackValidated).length = 1 ∧
          (final.entriesOf applied.2.chunkId .remoteGc).length = 1

end TransferFiles

/-- A call from `s'` ends, and with the files that an uninterrupted call from `s` leaves. -/
structure ApplyCall.Recovers (sha256 : Bytes → String) (call again : ApplyCall)
    (s s' : TransferFiles) : Prop where
  completes : ∃ counts, (execAlone sha256 call.applyAcks s).1 = .ok counts ∧
    counts.applied = s.pending.length
  completesAgain : ∃ counts, (execAlone sha256 again.applyAcks s').1 = .ok counts
  sameSpool : (execAlone sha256 call.applyAcks s).2.SameSpool
    (execAlone sha256 again.applyAcks s').2
  noTransaction : (execAlone sha256 again.applyAcks s').2.edge.applying = .empty
  cleared : ∀ applied ∈ s.pending,
    (execAlone sha256 again.applyAcks s').2.chunkFiles.Cleared applied.2

variable {sha256 : Bytes → String} {good : ApplyCall → TransferFiles → Prop}
  {s s' : TransferFiles}

theorem Interrupted.resumes (h : Interrupted sha256 good s s') :
    s.Resumes (∀ call s, good call s → ApplyCall.WholeLedger call s) s' := by
  induction h with
  | none => exact .refl
  | @again s₁ h call fault n hgood ih =>
    have hcall := (@safe_applyAcks call sha256 fault s₁).cut n
    exact ih.trans (hcall.mono fun hwhole => hwhole call s₁ hgood)

/-- Where a call that comes to its end leaves the files. -/
theorem completed (call : ApplyCall) (s : TransferFiles) :
    ∃ counts, (execAlone sha256 call.applyAcks s).1 = .ok counts ∧
      counts.applied = s.pending.length ∧ (execAlone sha256 call.applyAcks s).2.Done ∧
        s.Resumes (call.WholeLedger s) (execAlone sha256 call.applyAcks s).2 := by
  obtain ⟨hresumes, hend⟩ := (@safe_applyAcks call sha256 none s).execAlone
  obtain ⟨counts, hok, happlied, hdone⟩ := hend rfl
  exact ⟨counts, hok, happlied, hdone, hresumes⟩

namespace TransferFiles

theorem Done.settled (h : s.Done) : s.settled = s.chunkFiles := by
  rw [TransferFiles.settled, h.pending]
  rfl

theorem Done.accounted (h : s.Done) {eventId : EventId} :
    s.Accounted eventId ↔ eventId ∈ s.ledgerIds := by
  rw [Accounted, h.pending]
  exact or_iff_left List.not_mem_nil

theorem enteredOnce_of_accounted {final : TransferFiles}
    (h : ∀ chunkId ms kind, .ofAck chunkId ms kind ∈ final.ledgerIds ↔
      s.Accounted (.ofAck chunkId ms kind)) : s.EnteredOnce final := by
  have hin : ∀ applied ∈ s.pending, ∀ eventId ∈ entryIds applied, eventId ∈ final.ledgerIds := by
    intro applied happlied eventId hid
    obtain ⟨kind, rfl⟩ := mem_entryIds hid
    exact (h _ _ _).mpr (.inr (List.mem_flatMap.mpr ⟨applied, happlied, hid⟩))
  have hone : ∀ applied ∈ s.pending,
      (∀ other ∈ s.pending, other.2.chunkId = applied.2.chunkId → other = applied) →
        (∀ ms kind, .ofAck applied.2.chunkId ms kind ∈ s.ledgerIds →
          ms = utcText applied.1.durableAt) →
          ∀ kind, entryId applied kind ∈ entryIds applied →
            (final.entriesOf applied.2.chunkId kind).length = 1 := by
    intro applied happlied honly hledger kind hkind
    have hall : ∀ eventId ∈ final.entriesOf applied.2.chunkId kind,
        eventId = entryId applied kind := by
      intro eventId hm
      obtain ⟨hledgered, hentry⟩ := List.mem_filter.mp hm
      cases eventId with
      | ofRun applyId subject kind' => cases hentry
      | ofAck chunkId ms kind' =>
        obtain ⟨rfl, rfl⟩ := of_decide_eq_true hentry
        rcases (h _ _ _).mp (List.mem_dedup.mp hledgered) with hold | hnew
        · rw [hledger ms kind' hold]
          rfl
        · obtain ⟨other, hother, hid⟩ := List.mem_flatMap.mp hnew
          obtain ⟨kind'', heq⟩ := mem_entryIds hid
          obtain ⟨hchunk, hms, -⟩ := EventId.ofAck.inj heq
          rw [hms, honly other hother hchunk.symm]
          rfl
    have hmem : entryId applied kind ∈ final.entriesOf applied.2.chunkId kind :=
      List.mem_filter.mpr ⟨List.mem_dedup.mpr (hin applied happlied _ hkind),
        decide_eq_true ⟨rfl, rfl⟩⟩
    have hnodup : (final.entriesOf applied.2.chunkId kind).Nodup := (List.nodup_dedup _).filter _
    have hperm : (final.entriesOf applied.2.chunkId kind).Perm [entryId applied kind] := by
      refine (List.perm_ext_iff_of_nodup hnodup (List.nodup_singleton _)).mpr fun eventId => ?_
      rw [List.mem_singleton]
      exact ⟨hall eventId, fun heq => heq ▸ hmem⟩
    exact hperm.length_eq
  refine ⟨fun applied happlied eventId hid => ?_, fun chunkId ms kind hm => (h _ _ _).mp hm,
    fun applied happlied honly hledger => ⟨?_, ?_⟩⟩
  · exact List.count_eq_one_of_mem (List.nodup_dedup _)
      (List.mem_dedup.mpr (hin applied happlied eventId hid))
  · exact hone applied happlied honly hledger _ (List.mem_cons_self)
  · exact hone applied happlied honly hledger _ (List.mem_cons_of_mem _ List.mem_cons_self)

end TransferFiles

theorem Interrupted.recovers (h : Interrupted sha256 good s s') (call again : ApplyCall) :
    call.Recovers sha256 again s s' := by
  obtain ⟨counts, hok, happlied, hdone, hresumes⟩ := @completed sha256 call s
  obtain ⟨counts', hok', -, hdone', hresumes'⟩ := @completed sha256 again s'
  have hchunks : (execAlone sha256 again.applyAcks s').2.chunkFiles = s.settled := by
    rw [← hdone'.settled, hresumes'.settled, h.resumes.settled]
  refine ⟨⟨counts, hok, happlied⟩, ⟨counts', hok'⟩, ⟨?_, ?_, ?_⟩, ?_, fun applied hm => ?_⟩
  · rw [hchunks, ← hdone.settled, hresumes.settled]
  · exact Folder.ext fun file => (hdone'.acks file).trans (hdone.acks file).symm
  · exact Folder.ext fun name => (hdone'.applying name).trans (hdone.applying name).symm
  · exact Folder.ext fun name => (hdone'.applying name).trans (Folder.read_empty name).symm
  · rw [hchunks]
    exact ChunkFiles.cleared_settleAll (List.mem_map_of_mem hm)

/-- After any interrupted calls, a call that comes to its end leaves the files of an uninterrupted
one. If no call has found the ledger of its date broken off within a line, the ledger has the
entries of every applied chunk. -/
theorem interrupted_recovers (h : Interrupted sha256 good s s') (call again : ApplyCall) :
    call.Recovers sha256 again s s' ∧
      ((∀ call s, good call s → ApplyCall.WholeLedger call s) → again.WholeLedger s' →
        s.EnteredOnce (execAlone sha256 again.applyAcks s').2) := by
  refine ⟨h.recovers call again, fun hwhole hledger => ?_⟩
  obtain ⟨-, -, -, hdone, hresumes⟩ := @completed sha256 again s'
  refine enteredOnce_of_accounted fun chunkId ms kind => ?_
  rw [← hdone.accounted, hresumes.accounted hledger, h.resumes.accounted hwhole]

/-! One chunk, whose ACK has come. -/

namespace Sample

/-- The first append breaks off within its first line. -/
def brokenOff : TransferFiles :=
  applyCall.applyAcks.cut (fun op s => .ok (faulty digest (some ⟨0, true⟩) op s)) 60 pulled

/-- The first append fails behind its first line. -/
def cutOff : TransferFiles :=
  applyCall.applyAcks.cut (fun op s => .ok (faulty digest (some ⟨1, false⟩) op s)) 60 pulled

def againCall : ApplyCall := ⟨"apply-2", 1786320310000000⟩

end Sample

theorem interrupted_recovers_sample :
    Sample.pulled.pending.length = 1 ∧ Sample.cutOff.edge.applying.names.length = 1 ∧
      Sample.applyCall.Recovers Sample.digest Sample.againCall Sample.pulled Sample.cutOff ∧
        Sample.pulled.EnteredOnce
          (execAlone Sample.digest Sample.againCall.applyAcks Sample.cutOff).2 := by
  have hwhole : Sample.applyCall.WholeLedger Sample.pulled := by decide +kernel
  have hwhole' : Sample.againCall.WholeLedger Sample.cutOff := by decide +kernel
  have h : Interrupted Sample.digest ApplyCall.WholeLedger Sample.pulled Sample.cutOff :=
    .again .none Sample.applyCall (some ⟨1, false⟩) 60 hwhole
  obtain ⟨hfiles, hledger⟩ := interrupted_recovers h Sample.applyCall Sample.againCall
  exact ⟨by decide +kernel, by decide +kernel, hfiles, hledger (fun _ _ hgood => hgood) hwhole'⟩

/-- The rerun completes the broken line with ACK_VALIDATED, and the chunk never gets that entry. -/
theorem interrupted_losesEntry :
    ∃ s', Interrupted Sample.digest (fun _ _ => True) Sample.pulled s' ∧
      Sample.applyCall.Recovers Sample.digest Sample.againCall Sample.pulled s' ∧
        ¬ Sample.pulled.EnteredOnce (execAlone Sample.digest Sample.againCall.applyAcks s').2 := by
  have hbroken : Interrupted Sample.digest (fun _ _ => True) Sample.pulled Sample.brokenOff :=
    .again .none Sample.applyCall (some ⟨0, true⟩) 60 trivial
  refine ⟨Sample.brokenOff, hbroken, hbroken.recovers Sample.applyCall Sample.againCall,
    fun h => ?_⟩
  have hlost : ∃ applied ∈ Sample.pulled.pending, ∃ eventId ∈ entryIds applied,
      (execAlone Sample.digest Sample.againCall.applyAcks Sample.brokenOff).2.ledgerIds.dedup.count
        eventId = 0 := by decide +kernel
  obtain ⟨applied, happlied, eventId, hid, hnone⟩ := hlost
  exact absurd ((h.once applied happlied eventId hid).symm.trans hnone) (by decide)

end MiryFormal
