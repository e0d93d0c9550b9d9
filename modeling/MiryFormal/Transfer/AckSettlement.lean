import MiryFormal.Transfer.AckAcceptance

/-!
# The loop over the transactions, cut anywhere

At every cut the files of chunks lead to what they led to at the start.
-/

namespace MiryFormal

set_option autoImplicit false

open Program TransferOp TransferFiles

/-! ## The transactions -/

namespace TransferFiles

/-- The files of chunks are replaced. -/
def withChunks (s : TransferFiles) (files : ChunkFiles) : TransferFiles :=
  { s with
    edge.data := files.data
    edge.manifests := files.manifests
    edge.acked := files.acked
    edge.sealedDays := files.sealedDays }

def dropTransaction (s : TransferFiles) (name : String) (rejected : List Rejected) :
    TransferFiles :=
  { s with
    edge.applying := s.edge.applying.remove name
    edge.rejected := rejected }

@[simp] theorem chunkFiles_withChunks (s : TransferFiles) (files : ChunkFiles) :
    (s.withChunks files).chunkFiles = files := rfl

end TransferFiles

/-- The entries of applied chunks among the events are those of `applieds`. -/
def EntriesOf (events : List TransferEvent) (applieds : List (Ack × ChunkManifest)) : Prop :=
  ∀ chunkId ms kind, .ofAck chunkId ms kind ∈ events.map TransferEvent.eventId ↔
    .ofAck chunkId ms kind ∈ applieds.flatMap entryIds

theorem RunEvents.entriesOf {events : List TransferEvent} (h : RunEvents events) :
    EntriesOf events [] := by
  refine fun chunkId ms kind => ⟨fun hm => ?_, fun hm => nomatch hm⟩
  obtain ⟨event, hevent, hid⟩ := List.mem_map.mp hm
  obtain ⟨applyId, subject, kind', hrun⟩ := h event hevent
  cases hrun.symm.trans hid

/-- What `applyTransaction` may do to its progress and the files. -/
inductive TransactionStep (progress : ApplyProgress) (name : String) (s : TransferFiles) :
    ApplyProgress → TransferFiles → Prop
  | rejected {progress' : ApplyProgress} {event : TransferEvent} (rejected : List Rejected)
      (hnone : s.pendingAt name = none)
      (hevent : ∀ chunkId ms kind, event.eventId ≠ .ofAck chunkId ms kind)
      (hevents : progress'.events = progress.events ++ [event])
      (hcompleted : progress'.completed = progress.completed)
      (happlied : progress'.result.applied = progress.result.applied) :
      TransactionStep progress name s progress' (s.dropTransaction name rejected)
  | applied {progress' : ApplyProgress} {applied : Ack × ChunkManifest}
      (hsome : s.pendingAt name = some applied)
      (hevents : progress'.events.map TransferEvent.eventId =
        progress.events.map TransferEvent.eventId ++ entryIds applied)
      (hcompleted : progress'.completed = progress.completed ++ [name])
      (happlied : progress'.result.applied = progress.result.applied + 1) :
      TransactionStep progress name s progress' (s.withChunks (s.chunkFiles.settle applied.2))

section Applying
variable {call : ApplyCall} {sha256 : Bytes → String} {fault : Option AppendFault}
  {P : TransferFiles → Prop} {progress progress' : ApplyProgress} {name : String}
  {names : List String} {s s' : TransferFiles}

theorem safe_existsInSealedDay (hs : P s) (manifest : ChunkManifest) :
    AloneSafe sha256 fault P (fun result s' => s' = s ∧ result =
        .ok ((s.edge.manifests.read manifest.manifestPath).isSome &&
          (s.edge.sealedDays.read manifest.utcDate).isSome))
      (ApplyCall.existsInSealedDay manifest) s := by
  have hsealed : TransferOp.run sha256 (sealedExists manifest.utcDate) s =
      (.ok (s.edge.sealedDays.read manifest.utcDate).isSome, s) := rfl
  refine AloneSafe.bind_io id rfl hs ?_
  cases (s.edge.manifests.read manifest.manifestPath).isSome with
  | false => exact ⟨hs, rfl, rfl⟩
  | true => exact AloneSafe.io id hsealed hs hs ⟨rfl, rfl⟩

theorem safe_retireManifest {Q : Except Failure Unit → TransferFiles → Prop}
    {manifest : ChunkManifest} (hs : P s)
    (hs' : P (s.withChunks (s.chunkFiles.retire manifest)))
    (hQ : Q (.ok ()) (s.withChunks (s.chunkFiles.retire manifest))) :
    AloneSafe sha256 fault P Q (ApplyCall.retireManifest manifest) s := by
  refine Safe.bind (safe_existsInSealedDay hs manifest) ?_ fun _ _ habsurd => nomatch habsurd.2
  rintro isSealed s ⟨rfl, hsealed⟩
  cases hsealed
  cases hread : s.edge.manifests.read manifest.manifestPath with
  | none =>
    have hsame : s.withChunks (s.chunkFiles.retire manifest) = s := by
      rw [ChunkFiles.retire_of_absent hread]
      rfl
    have hexists : TransferOp.run sha256 (manifestExists manifest.manifestPath) s =
        (.ok false, s) := by rw [TransferOp.run, hread, Option.isSome_none]
    rw [hsame] at hQ
    exact AloneSafe.bind_io id hexists hs ⟨hs, hQ⟩
  | some content =>
    cases hday : s.edge.sealedDays.read manifest.utcDate with
    | some day =>
      have hrun : TransferOp.run sha256 (unlinkManifest manifest.manifestPath) s =
          (.ok (), s.withChunks (s.chunkFiles.retire manifest)) := by
        have hread' : s.chunkFiles.manifests.read manifest.manifestPath = some content := hread
        have hday' : s.chunkFiles.sealedDays.read manifest.utcDate = some day := hday
        rw [TransferOp.run, hread, ChunkFiles.retire, hread', hday']
        rfl
      exact AloneSafe.io id hrun hs hs' hQ
    | none =>
      have hexists : TransferOp.run sha256 (manifestExists manifest.manifestPath) s =
          (.ok true, s) := by rw [TransferOp.run, hread, Option.isSome_some]
      have hrun : TransferOp.run sha256 (moveManifest manifest.manifestPath manifest.utcDate) s =
          (.ok (), s.withChunks (s.chunkFiles.retire manifest)) := by
        have hread' : s.chunkFiles.manifests.read manifest.manifestPath = some content := hread
        have hday' : s.chunkFiles.sealedDays.read manifest.utcDate = none := hday
        rw [TransferOp.run, hread, ChunkFiles.retire, hread', hday']
        rfl
      exact AloneSafe.bind_io id hexists hs (AloneSafe.io id hrun hs hs' hQ)

theorem safe_deleteData {Q : Except Failure Unit → TransferFiles → Prop}
    {manifest : ChunkManifest} (hs : P s)
    (hs' : P (s.withChunks (s.chunkFiles.discard manifest)))
    (hQ : Q (.ok ()) (s.withChunks (s.chunkFiles.discard manifest))) :
    AloneSafe sha256 fault P Q (ApplyCall.deleteData manifest) s := by
  cases hread : s.edge.data.read manifest.dataPath with
  | none =>
    have hsame : s.withChunks (s.chunkFiles.discard manifest) = s := by
      rw [ChunkFiles.discard_of_absent hread]
      rfl
    have hexists : TransferOp.run sha256 (dataExists manifest.dataPath) s = (.ok false, s) := by
      rw [TransferOp.run, hread, Option.isSome_none]
    rw [hsame] at hQ
    exact AloneSafe.bind_io id hexists hs ⟨hs, hQ⟩
  | some content =>
    have hexists : TransferOp.run sha256 (dataExists manifest.dataPath) s = (.ok true, s) := by
      rw [TransferOp.run, hread, Option.isSome_some]
    have hrun : TransferOp.run sha256 (unlinkData manifest.dataPath) s =
        (.ok (), s.withChunks (s.chunkFiles.discard manifest)) := by
      rw [TransferOp.run, hread]
      rfl
    exact AloneSafe.bind_io id hexists hs (AloneSafe.io id hrun hs hs' hQ)

theorem safe_rejectTransaction {content : Option AckTransaction} {reason : String}
    (hread : s.edge.applying.read name = some content) (hnone : s.pendingAt name = none) (hs : P s)
    {count : AckApplyResult → AckApplyResult} {event : TransferEvent}
    (hcount : ∀ result, (count result).applied = result.applied)
    (hevent : ∀ chunkId ms kind, event.eventId ≠ .ofAck chunkId ms kind)
    {Q : Except Failure ApplyProgress → TransferFiles → Prop}
    (hstep : ∀ progress' s', TransactionStep progress name s progress' s' →
      P s' ∧ Q (.ok progress') s') :
    AloneSafe sha256 fault P Q (progress.rejectTransaction name reason count event) s := by
  have hrun : TransferOp.run sha256 (quarantineTransaction name reason) s =
      (.ok (), s.dropTransaction name (s.edge.rejected ++ [⟨name, reason⟩])) := by
    rw [TransferOp.run, hread]
    rfl
  exact AloneSafe.bind_io id hrun hs (hstep _ _ (.rejected _ hnone hevent rfl rfl (hcount _)))

/-- What one transaction leads to, at every cut. -/
theorem safe_applyTransaction {content : Option AckTransaction}
    (hread : s.edge.applying.read name = some content) (hs : P s)
    (hretired : ∀ applied, s.pendingAt name = some applied →
      P (s.withChunks (s.chunkFiles.retire applied.2)))
    {Q : Except Failure ApplyProgress → TransferFiles → Prop}
    (hstep : ∀ progress' s', TransactionStep progress name s progress' s' →
      P s' ∧ Q (.ok progress') s') :
    AloneSafe sha256 fault P Q (call.applyTransaction progress name) s := by
  have hpending := pendingAt_some hread
  have hrun : TransferOp.run sha256 (readTransaction name) s = (.ok content, s) := by
    rw [TransferOp.run, hread, found]
  refine AloneSafe.bind_attempt id hrun hs ?_
  cases content with
  | none =>
    show AloneSafe sha256 fault P Q (progress.rejectTransaction name _ _ _) s
    refine safe_rejectTransaction hread hpending hs ?_ ?_ hstep
    · exact fun _ => rfl
    · intro _ _ _ h
      cases h
  | some transaction =>
    show AloneSafe sha256 fault P Q
      (if transaction.ack.sha256 ≠ transaction.manifest.sha256 then _ else _) s
    by_cases hsha : transaction.ack.sha256 = transaction.manifest.sha256
    · rw [transactionOf, Option.bind_some, if_pos hsha] at hpending
      have hsettled := fun progress' h h' h'' =>
        hstep progress' _ (.applied hpending h h' h'')
      have hmid := hretired _ hpending
      have hend := (hsettled { progress with
        events := progress.events ++
          [call.gcEvent transaction .ackValidated none, call.gcEvent transaction .remoteGc none]
        completed := progress.completed ++ [name]
        result.applied := progress.result.applied + 1 } List.map_append rfl rfl).1
      rw [if_neg (not_not.mpr hsha)]
      refine AloneSafe.bind_io id rfl hs (AloneSafe.bind_io id rfl hs ?_)
      have hretire : AloneSafe sha256 fault P (fun result s' => result = .ok () ∧
          s' = s.withChunks (s.chunkFiles.retire transaction.manifest))
          (ApplyCall.retireManifest transaction.manifest) s :=
        safe_retireManifest hs hmid ⟨rfl, rfl⟩
      refine Safe.bind hretire ?_ fun _ _ habsurd => by cases habsurd.1
      rintro _ _ ⟨-, rfl⟩
      have hdelete : AloneSafe sha256 fault P (fun result s' => result = .ok () ∧
          s' = s.withChunks (s.chunkFiles.settle transaction.manifest))
          (ApplyCall.deleteData transaction.manifest)
          (s.withChunks (s.chunkFiles.retire transaction.manifest)) :=
        safe_deleteData hmid hend ⟨rfl, rfl⟩
      refine Safe.bind hdelete ?_ fun _ _ habsurd => by cases habsurd.1
      rintro _ _ ⟨-, rfl⟩
      show P _ ∧ Q (.ok _) _
      exact hsettled _ List.map_append rfl rfl
    · rw [transactionOf, Option.bind_some, if_neg hsha] at hpending
      rw [if_pos hsha]
      refine safe_rejectTransaction hread hpending hs ?_ ?_ hstep
      · exact fun _ => rfl
      · intro _ _ _ h
        cases h

/-- Where the loop over the transactions stands: `applieds` are behind it. -/
structure TransactionLoop (names : List String) (applieds : List (Ack × ChunkManifest))
    (progress : ApplyProgress) (s : TransferFiles) : Prop where
  acks : ∀ file, s.edge.acks.read file = none
  nodup : names.Nodup
  present : ∀ name ∈ names, s.edge.applying.read name ≠ none
  listed : ∀ name, s.edge.applying.read name ≠ none → name ∈ names ∨ name ∈ progress.completed
  pending : s.pending = applieds ++ names.filterMap s.pendingAt
  cleared : ∀ applied ∈ applieds, s.chunkFiles.Cleared applied.2
  entries : EntriesOf progress.events applieds
  applied : progress.result.applied = applieds.length

theorem EntriesOf.snoc_other {events : List TransferEvent} {applieds : List (Ack × ChunkManifest)}
    (h : EntriesOf events applieds) {event : TransferEvent}
    (hevent : ∀ chunkId ms kind, event.eventId ≠ .ofAck chunkId ms kind) :
    EntriesOf (events ++ [event]) applieds := by
  intro chunkId ms kind
  rw [List.map_append, List.mem_append, List.map_singleton, List.mem_singleton,
    or_iff_left (hevent chunkId ms kind).symm, h]

theorem EntriesOf.snoc {events events' : List TransferEvent}
    {applieds : List (Ack × ChunkManifest)} {applied : Ack × ChunkManifest}
    (h : EntriesOf events applieds)
    (hevents : events'.map TransferEvent.eventId =
      events.map TransferEvent.eventId ++ entryIds applied) :
    EntriesOf events' (applieds ++ [applied]) := by
  intro chunkId ms kind
  rw [hevents, List.mem_append, h, List.flatMap_append, List.mem_append, List.flatMap_singleton]

/-- Without ACKs, what is pending depends on the transactions only. -/
theorem pendingAt_withChunks (hacks : ∀ file, s.edge.acks.read file = none) (files : ChunkFiles)
    (name : String) : (s.withChunks files).pendingAt name = s.pendingAt name := by
  cases hread : s.edge.applying.read name with
  | some content => rw [pendingAt_some hread, pendingAt_some (s := s.withChunks files) hread]
  | none =>
    rw [pendingAt_eq_none hacks hread, pendingAt_eq_none (s := s.withChunks files) hacks hread]

theorem pendingAt_dropTransaction (hacks : ∀ file, s.edge.acks.read file = none)
    (rejected : List Rejected) (other : String) :
    (s.dropTransaction name rejected).pendingAt other =
      if name = other then none else s.pendingAt other := by
  have hread : (s.dropTransaction name rejected).edge.applying.read other =
      if name = other then none else s.edge.applying.read other := Folder.read_remove _ _ _
  split
  · rename_i heq
    rw [if_pos heq] at hread
    exact pendingAt_eq_none hacks hread
  · rename_i hne
    rw [if_neg hne] at hread
    cases hold : s.edge.applying.read other with
    | some content =>
      rw [hold] at hread
      rw [pendingAt_some hold, pendingAt_some hread]
    | none =>
      rw [hold] at hread
      rw [pendingAt_eq_none hacks hold]
      exact pendingAt_eq_none hacks hread

namespace TransactionLoop
variable {applieds : List (Ack × ChunkManifest)}

theorem settled (h : TransactionLoop names applieds progress s) :
    s.settled = s.chunkFiles.settleAll ((names.filterMap s.pendingAt).map Prod.snd) := by
  rw [TransferFiles.settled, h.pending, List.map_append]
  refine ChunkFiles.settleAll_resume fun manifest hm => ?_
  obtain ⟨applied, happlied, rfl⟩ := List.mem_map.mp hm
  exact h.cleared applied happlied

/-- A transaction may be cut between its manifest and its data. -/
theorem advances_withChunks (h : TransactionLoop (name :: names) applieds progress s)
    {applied : Ack × ChunkManifest} (hsome : s.pendingAt name = some applied) {files : ChunkFiles}
    (hshrinks : ChunkFiles.Shrinks s.chunkFiles files)
    (hsettle : files.settle applied.2 = s.chunkFiles.settle applied.2) :
    s.Advances (s.withChunks files) := by
  have hpendingAt := pendingAt_withChunks h.acks files
  refine ⟨?_, rfl, hpendingAt⟩
  have hresume : ∀ other : ChunkFiles, other.settleAll (applieds.map Prod.snd ++
      (applied :: names.filterMap s.pendingAt).map Prod.snd) =
        (other.settleAll (applieds.map Prod.snd)).settleAll
          ((applied :: names.filterMap s.pendingAt).map Prod.snd) := fun other => List.foldl_append
  rw [h.settled, List.filterMap_cons_some hsome, TransferFiles.settled, pending_congr hpendingAt,
    h.pending, List.filterMap_cons_some hsome, List.map_append, chunkFiles_withChunks,
    ChunkFiles.settleAll_resume]
  · show (files.settle applied.2).settleAll _ = (s.chunkFiles.settle applied.2).settleAll _
    rw [hsettle]
  · intro manifest hm
    obtain ⟨earlier, hearlier, rfl⟩ := List.mem_map.mp hm
    exact (h.cleared earlier hearlier).shrinks hshrinks

theorem step (h : TransactionLoop (name :: names) applieds progress s)
    (hstep : TransactionStep progress name s progress' s') :
    s.Advances s' ∧ ∃ applieds', TransactionLoop names applieds' progress' s' := by
  obtain ⟨hnotmem, hnodup⟩ := List.nodup_cons.mp h.nodup
  cases hstep with
  | rejected rejected hnone hevent hevents hcompleted happlied =>
    have hpendingAt : ∀ other, (s.dropTransaction name rejected).pendingAt other =
        s.pendingAt other := by
      intro other
      rw [pendingAt_dropTransaction h.acks]
      split
      · rename_i heq
        rw [← heq, hnone]
      · rfl
    have hread : ∀ other, (s.dropTransaction name rejected).edge.applying.read other =
        if name = other then none else s.edge.applying.read other :=
      fun other => Folder.read_remove _ _ _
    have hpending := pending_congr hpendingAt
    refine ⟨⟨?_, rfl, hpendingAt⟩, applieds, ?_⟩
    · rw [TransferFiles.settled, TransferFiles.settled, hpending]
      rfl
    · refine ⟨h.acks, hnodup, ?_, ?_, ?_, h.cleared, ?_, ?_⟩
      · intro other hm
        rw [hread, if_neg (ne_of_mem_of_not_mem hm hnotmem).symm]
        exact h.present other (List.mem_cons_of_mem _ hm)
      · intro other hother
        rw [hread] at hother
        split at hother
        · exact absurd rfl hother
        · rename_i hne
          rw [hcompleted]
          exact (h.listed other hother).imp_left fun hm =>
            (List.mem_cons.mp hm).resolve_left (Ne.symm hne)
      · rw [hpending, h.pending, List.filterMap_cons_none hnone, funext hpendingAt]
      · rw [hevents]
        exact h.entries.snoc_other hevent
      · rw [happlied, h.applied]
  | @applied applied hsome hevents hcompleted happlied =>
    have hadvances := h.advances_withChunks hsome ChunkFiles.shrinks_settle
      ChunkFiles.cleared_settle.settle_eq
    refine ⟨hadvances, applieds ++ [applied], h.acks, hnodup, ?_, ?_, ?_, ?_, ?_, ?_⟩
    · exact fun other hm => h.present other (List.mem_cons_of_mem _ hm)
    · intro other hother
      rw [hcompleted, List.mem_append, List.mem_singleton]
      rcases h.listed other hother with hm | hm
      · rcases List.mem_cons.mp hm with rfl | hm
        · exact .inr (.inr rfl)
        · exact .inl hm
      · exact .inr (.inl hm)
    · rw [hadvances.pending, h.pending, List.filterMap_cons_some hsome, List.append_assoc,
        List.singleton_append, funext hadvances.pendingAt]
    · intro other hm
      rcases List.mem_append.mp hm with hm | hm
      · exact (h.cleared other hm).shrinks ChunkFiles.shrinks_settle
      · cases List.mem_singleton.mp hm
        exact ChunkFiles.cleared_settle
    · exact h.entries.snoc hevents
    · rw [happlied, h.applied, List.length_append, List.length_singleton]

end TransactionLoop

theorem safe_applyTransactions {applieds : List (Ack × ChunkManifest)}
    (h : TransactionLoop names applieds progress s) :
    AloneSafe sha256 fault s.Advances
      (fun result s' => ∃ progress' applieds', result = .ok progress' ∧ s.Advances s' ∧
        TransactionLoop [] applieds' progress' s')
      (names.foldlM call.applyTransaction progress) s := by
  induction names generalizing progress s applieds with
  | nil => exact ⟨.refl, progress, applieds, rfl, .refl, h⟩
  | cons name names ih =>
    obtain ⟨content, hread⟩ :=
      Option.ne_none_iff_exists'.mp (h.present name List.mem_cons_self)
    have hfirst : AloneSafe sha256 fault s.Advances
        (fun result s' => ∃ progress' applieds', result = .ok progress' ∧ s.Advances s' ∧
          TransactionLoop names applieds' progress' s')
        (call.applyTransaction progress name) s := by
      refine safe_applyTransaction hread .refl (fun applied hsome => ?_)
        fun progress' s' hstep => ?_
      · exact h.advances_withChunks hsome ChunkFiles.shrinks_retire ChunkFiles.settle_retire
      · obtain ⟨hadvances, applieds', hloop⟩ := h.step hstep
        exact ⟨hadvances, progress', applieds', rfl, hadvances, hloop⟩
    rw [List.foldlM_cons]
    refine Safe.bind hfirst ?_ fun _ _ ⟨_, _, habsurd, _⟩ => nomatch habsurd
    rintro progress' s₁ ⟨_, applieds', hprogress, hadvances, hloop⟩
    cases hprogress
    refine (ih hloop).mono (fun _ h' => hadvances.trans h') ?_
    rintro result s₂ ⟨last, applieds'', hresult, hadvances', hdone⟩
    exact ⟨last, applieds'', hresult, hadvances.trans hadvances', hdone⟩

end Applying

end MiryFormal
