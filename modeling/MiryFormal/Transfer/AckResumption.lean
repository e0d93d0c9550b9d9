import MiryFormal.Transfer.AckSettlement

/-!
# A call of `apply_acks`, cut anywhere

Behind the loops the call enters the chunks in the ledger, and only then removes the
transactions.
-/

namespace MiryFormal

set_option autoImplicit false

open Program TransferOp TransferFiles

/-! ## The end of a call -/

/-- No ACK and no transaction is left. -/
structure TransferFiles.Done (s : TransferFiles) : Prop where
  acks : ∀ file, s.edge.acks.read file = none
  applying : ∀ name, s.edge.applying.read name = none

/-- All transactions are applied and, on condition `whole`, entered; those of `names` are still
there. -/
structure Entered (whole : Prop) (names : List String) (s : TransferFiles) : Prop where
  acks : ∀ file, s.edge.acks.read file = none
  listed : ∀ name, s.edge.applying.read name ≠ none → name ∈ names
  cleared : ∀ applied ∈ s.pending, s.chunkFiles.Cleared applied.2
  entered : whole → ∀ chunkId ms kind, .ofAck chunkId ms kind ∈ s.pending.flatMap entryIds →
    .ofAck chunkId ms kind ∈ s.ledgerIds

section Finishing
variable {call : ApplyCall} {sha256 : Bytes → String} {fault : Option AppendFault} {whole : Prop}
  {P : TransferFiles → Prop} {progress : ApplyProgress} {name : String} {names : List String}
  {s : TransferFiles}

theorem TransferFiles.Done.pending (h : s.Done) : s.pending = [] := by
  refine List.eq_nil_iff_forall_not_mem.mpr fun applied hm => ?_
  obtain ⟨name, hname⟩ := mem_pending.mp hm
  rw [pendingAt_eq_none h.acks (h.applying name)] at hname
  cases hname

theorem Entered.settled (h : Entered whole names s) : s.settled = s.chunkFiles := by
  refine ChunkFiles.settleAll_of_cleared fun manifest hm => ?_
  obtain ⟨applied, happlied, rfl⟩ := List.mem_map.mp hm
  exact h.cleared applied happlied

theorem Entered.unlink (h : Entered whole (name :: names) s) :
    s.Resumes whole (s.dropTransaction name s.edge.rejected) ∧
      Entered whole names (s.dropTransaction name s.edge.rejected) := by
  have hread : ∀ other, (s.dropTransaction name s.edge.rejected).edge.applying.read other =
      if name = other then none else s.edge.applying.read other := fun _ => Folder.read_remove _ _ _
  have hfewer : ∀ applied ∈ (s.dropTransaction name s.edge.rejected).pending,
      applied ∈ s.pending := by
    intro applied hm
    obtain ⟨other, hother⟩ := mem_pending.mp hm
    rw [pendingAt_dropTransaction h.acks] at hother
    split at hother
    · cases hother
    · exact mem_pending.mpr ⟨other, hother⟩
  have hentries : ∀ eventId ∈ (s.dropTransaction name s.edge.rejected).pending.flatMap entryIds,
      eventId ∈ s.pending.flatMap entryIds := by
    intro eventId hm
    obtain ⟨applied, happlied, hid⟩ := List.mem_flatMap.mp hm
    exact List.mem_flatMap.mpr ⟨applied, hfewer applied happlied, hid⟩
  have hnext : Entered whole names (s.dropTransaction name s.edge.rejected) := by
    refine ⟨h.acks, fun other hother => ?_, fun applied hm => h.cleared applied (hfewer applied hm),
      fun hwhole chunkId ms kind hm => h.entered hwhole chunkId ms kind (hentries _ hm)⟩
    rw [hread] at hother
    split at hother
    · exact absurd rfl hother
    · rename_i hne
      exact (List.mem_cons.mp (h.listed other hother)).resolve_left (Ne.symm hne)
  refine ⟨⟨hnext.settled.trans h.settled.symm, fun hwhole chunkId ms kind => ?_⟩, hnext⟩
  rw [Accounted, Accounted, or_iff_left_of_imp (hnext.entered hwhole chunkId ms kind),
    or_iff_left_of_imp (h.entered hwhole chunkId ms kind)]
  rfl

theorem safe_unlinkTransactions (h : Entered whole names s) :
    AloneSafe sha256 fault (s.Resumes whole)
      (fun result s' => result = .ok () ∧ s.Resumes whole s' ∧ Entered whole [] s')
      (names.forM fun name => io (unlinkTransaction name)) s := by
  induction names generalizing s with
  | nil => exact ⟨.refl, rfl, .refl, h⟩
  | cons name names ih =>
    obtain ⟨hresumes, hnext⟩ := h.unlink
    refine AloneSafe.bind_io id rfl .refl ((ih hnext).mono (fun _ h' => hresumes.trans h') ?_)
    rintro result s' ⟨hresult, hresumes', hdone⟩
    exact ⟨hresult, hresumes.trans hresumes', hdone⟩

def TransferFiles.withStatus (s : TransferFiles) (status : TransferStatus) : TransferFiles :=
  { s with edge.status := some status }

theorem TransferFiles.pending_withStatus (status : TransferStatus) :
    (s.withStatus status).pending = s.pending :=
  pending_congr fun _ => rfl

theorem Entered.withStatus (h : Entered whole names s) (status : TransferStatus) :
    s.Resumes whole (s.withStatus status) ∧ Entered whole names (s.withStatus status) := by
  have hpending := s.pending_withStatus status
  refine ⟨⟨?_, fun _ chunkId ms kind => ?_⟩, h.acks, h.listed, ?_, fun hwhole => ?_⟩
  · rw [TransferFiles.settled, hpending]
    rfl
  · rw [Accounted, hpending]
    rfl
  · rw [hpending]
    exact h.cleared
  · rw [hpending]
    exact h.entered hwhole

theorem safe_writeTransferStatus {Q : Except Failure Unit → TransferFiles → Prop} (hs : P s)
    (hstatus : ∀ status, P (s.withStatus status) ∧ Q (.ok ()) (s.withStatus status)) :
    AloneSafe sha256 fault P Q (call.writeTransferStatus progress) s := by
  refine AloneSafe.bind_io id rfl hs (AloneSafe.bind_io id rfl hs (AloneSafe.bind_io id rfl hs ?_))
  exact AloneSafe.io id rfl hs (hstatus _).1 (hstatus _).2

def TransferFiles.withLedger (s : TransferFiles) (utcDate : Int) (ledger : Ledger) :
    TransferFiles :=
  { s with edge.ledger := s.edge.ledger.write utcDate ledger }

theorem TransferFiles.pending_withLedger (utcDate : Int) (ledger : Ledger) :
    (s.withLedger utcDate ledger).pending = s.pending :=
  pending_congr fun _ => rfl

theorem safe_appendLedger {Q : Except Failure Unit → TransferFiles → Prop} {utcDate : Int}
    {batch : List TransferEvent} (hs : P s)
    (hdone : P (s.withLedger utcDate (((s.edge.ledger.read utcDate).getD {}).append batch)) ∧
      Q (.ok ()) (s.withLedger utcDate (((s.edge.ledger.read utcDate).getD {}).append batch)))
    (hfailed : ∀ fault' : AppendFault, fault = some fault' → ∀ e, ∀ s',
      s' = s.withLedger utcDate (((s.edge.ledger.read utcDate).getD {}).appendFailing batch
        fault'.kept fault'.broken) → P s' ∧ Q (.error e) s') :
    AloneSafe sha256 fault P Q (io (appendLedger utcDate batch)) s := by
  cases fault with
  | none => exact Safe.of_ok rfl hs hdone
  | some fault' => exact Safe.of_ok rfl hs (hfailed fault' rfl .osError _ rfl)

theorem accounted_withLedger {applieds : List (Ack × ChunkManifest)} {utcDate : Int}
    {added : List TransferEvent} {ledger : Ledger}
    (hledger : ledger.events = ((s.edge.ledger.read utcDate).getD {}).events ++ added)
    (hpending : s.pending = applieds) {chunkId : String} {ms : Int} {kind : TransferEventKind}
    (hadded : .ofAck chunkId ms kind ∈ added.map TransferEvent.eventId →
      .ofAck chunkId ms kind ∈ applieds.flatMap entryIds) :
    (s.withLedger utcDate ledger).Accounted (.ofAck chunkId ms kind) ↔
      s.Accounted (.ofAck chunkId ms kind) := by
  have hids := @mem_ledgerIds_write s (s.withLedger utcDate ledger) utcDate added ledger hledger rfl
    (.ofAck chunkId ms kind)
  rw [Accounted, Accounted, hids, pending_withLedger, hpending, or_assoc,
    or_iff_right_of_imp hadded]

namespace TransactionLoop
variable {applieds : List (Ack × ChunkManifest)}

/-- Some of the events are entered, or all. -/
theorem resumes_withLedger (h : TransactionLoop [] applieds progress s) {utcDate : Int}
    {added : List TransferEvent} {ledger : Ledger}
    (hledger : whole → ledger.events = ((s.edge.ledger.read utcDate).getD {}).events ++ added)
    (hadded : ∀ event ∈ added, event ∈ progress.events) :
    s.Resumes whole (s.withLedger utcDate ledger) := by
  have hpending : s.pending = applieds := h.pending.trans (List.append_nil _)
  refine ⟨?_, fun hwhole chunkId ms kind => ?_⟩
  · rw [TransferFiles.settled, pending_withLedger]
    rfl
  · refine accounted_withLedger (hledger hwhole) hpending fun hm => ?_
    obtain ⟨event, hevent, hid⟩ := List.mem_map.mp hm
    exact (h.entries chunkId ms kind).mp (List.mem_map.mpr ⟨event, hadded event hevent, hid⟩)

theorem entered_withLedger (h : TransactionLoop [] applieds progress s) {utcDate : Int}
    {ledger : Ledger} (hledger : whole →
      ledger.events = ((s.edge.ledger.read utcDate).getD {}).events ++ progress.events) :
    Entered whole progress.completed (s.withLedger utcDate ledger) := by
  have hpending : s.pending = applieds := h.pending.trans (List.append_nil _)
  refine ⟨h.acks, fun name hname => (h.listed name hname).resolve_left List.not_mem_nil,
    fun applied hm => ?_, fun hwhole chunkId ms kind hm => ?_⟩
  · rw [pending_withLedger, hpending] at hm
    exact h.cleared applied hm
  · rw [pending_withLedger, hpending, ← h.entries] at hm
    exact (mem_ledgerIds_write (hledger hwhole) rfl).mpr (.inr hm)

theorem safe_append (h : TransactionLoop [] applieds progress s)
    (hwhole : whole → call.WholeLedger s) :
    AloneSafe sha256 fault (s.Resumes whole)
      (fun result s' => s.Resumes whole s' ∧ (fault = none → result = .ok ()) ∧
        (result = .ok () → Entered whole progress.completed s'))
      (io (appendLedger call.utcDate progress.events)) s := by
  have hevents : whole → (((s.edge.ledger.read call.utcDate).getD {}).append
      progress.events).events = _ := fun hw => Ledger.events_append (hwhole hw) _
  have hdone := h.resumes_withLedger hevents fun _ hm => hm
  refine safe_appendLedger .refl
    ⟨hdone, hdone, fun _ => rfl, fun _ => h.entered_withLedger hevents⟩ ?_
  rintro fault' rfl e s' rfl
  have htorn : s.Resumes whole (s.withLedger call.utcDate
      (((s.edge.ledger.read call.utcDate).getD {}).appendFailing progress.events fault'.kept
        fault'.broken)) :=
    h.resumes_withLedger (fun hw => Ledger.events_appendFailing (hwhole hw) _ _ _)
      fun _ hm => List.mem_of_mem_take hm
  exact ⟨htorn, htorn, (nomatch ·), (nomatch ·)⟩

end TransactionLoop

theorem safe_finishCall {applieds : List (Ack × ChunkManifest)}
    (h : TransactionLoop [] applieds progress s) (hwhole : whole → call.WholeLedger s) :
    AloneSafe sha256 fault (s.Resumes whole)
      (fun result s' => s.Resumes whole s' ∧ (fault = none →
        result = .ok progress.result ∧ s'.Done)) (call.finishCall progress) s := by
  refine Safe.bind (h.safe_append hwhole) ?_ fun e s' ⟨hresumes, hok, _⟩ =>
    ⟨hresumes, fun hfault => nomatch hok hfault⟩
  rintro _ s₁ ⟨hresumes₁, -, hentered⟩
  have hentered₁ := hentered rfl
  have hstatus : AloneSafe sha256 fault (s.Resumes whole) (fun result s' => result = .ok () ∧
      s.Resumes whole s' ∧ Entered whole progress.completed s')
      (call.writeTransferStatus progress) s₁ := by
    refine safe_writeTransferStatus hresumes₁ fun status => ?_
    obtain ⟨hresumes, hentered⟩ := hentered₁.withStatus status
    exact ⟨hresumes₁.trans hresumes, rfl, hresumes₁.trans hresumes, hentered⟩
  refine Safe.bind hstatus ?_ fun _ _ habsurd => nomatch habsurd.1
  rintro _ s₂ ⟨-, hresumes₂, hentered₂⟩
  refine Safe.bind ((safe_unlinkTransactions hentered₂).mono (fun _ h' => hresumes₂.trans h')
    fun _ _ h' => h') ?_ fun _ _ habsurd => nomatch habsurd.1
  rintro _ s₃ ⟨-, hresumes₃, hdone⟩
  have hall := hresumes₂.trans hresumes₃
  have hgone : ∀ name, s₃.edge.applying.read name = none :=
    fun name => by_contra fun hne => List.not_mem_nil (hdone.listed name hne)
  exact ⟨hall, hall, fun _ => ⟨rfl, hdone.acks, hgone⟩⟩

theorem safe_acceptAcks_fresh (h : AckLoop names progress s) (hfresh : progress.Fresh) :
    AloneSafe sha256 fault (s.Resumes whole)
      (fun result s' => ∃ progress', result = .ok progress' ∧ s.Accepts s' ∧
        AckLoop [] progress' s' ∧ progress'.Fresh)
      (names.foldlM call.acceptAck progress) s := by
  have hyields : (names.foldlM call.acceptAck progress).Yields ApplyProgress.Fresh :=
    Yields.foldlM hfresh fun _ _ h => ApplyCall.yields_acceptAck h
  refine (Safe.yields (safe_acceptAcks h) hyields).mono (fun _ h => h.advances.resumes) ?_
  rintro result s' ⟨⟨progress', rfl, haccepts, hloop⟩, hfresh'⟩
  exact ⟨progress', rfl, haccepts, hloop, hfresh' _ rfl⟩

/-- When the ACKs are consumed, all transactions are listed, in order. -/
theorem AckLoop.transactionLoop (h : AckLoop [] progress s) (hfresh : progress.Fresh) :
    TransactionLoop (ApplyCall.sortedTransactions progress.transactionPaths) [] progress s := by
  have hacks : ∀ file, s.edge.acks.read file = none :=
    fun file => by_contra fun hne => List.not_mem_nil ((h.acks file).mp hne)
  have hlisted : ∀ name, s.edge.applying.read name ≠ none →
      name ∈ ApplyCall.sortedTransactions progress.transactionPaths :=
    fun name hname => mem_sortedTransactions.mpr ((h.paths name).mpr hname)
  refine ⟨hacks, nodup_sortedTransactions _, fun name hm => ?_, fun name hname =>
    .inl (hlisted name hname), ?_, fun _ hm => (nomatch hm), hfresh.1.entriesOf, hfresh.2⟩
  · exact (h.paths name).mp (mem_sortedTransactions.mp hm)
  · refine pending_eq (pairwise_sortedTransactions _) (nodup_sortedTransactions _) fun name hname =>
      hlisted name fun hgone => hname (pendingAt_eq_none hacks hgone)

/-- What one call leads to, at every cut. -/
theorem safe_applyAcks :
    AloneSafe sha256 fault (s.Resumes (call.WholeLedger s))
      (fun result s' => s.Resumes (call.WholeLedger s) s' ∧ (fault = none →
        ∃ counts : AckApplyResult, result = .ok counts ∧ counts.applied = s.pending.length ∧
          s'.Done)) call.applyAcks s := by
  refine AloneSafe.bind_io id rfl .refl (AloneSafe.bind_io id rfl .refl ?_)
  by_cases hnothing : s.edge.acks.names.isEmpty ∧ s.edge.applying.names.isEmpty
  · have hdone : s.Done := ⟨Folder.names_eq_nil.mp (List.isEmpty_iff.mp hnothing.1),
      Folder.names_eq_nil.mp (List.isEmpty_iff.mp hnothing.2)⟩
    rw [if_pos hnothing]
    exact ⟨.refl, .refl, fun _ => ⟨{}, rfl, (congrArg List.length hdone.pending).symm, hdone⟩⟩
  · rw [if_neg hnothing]
    refine Safe.bind (Safe.yields (call.safe_readyManifests .refl)
      ApplyCall.yields_readyManifests) ?_ fun _ _ habsurd => nomatch habsurd.1.1
    rintro scan s ⟨⟨hscan, rfl⟩, hevents⟩
    have hstart : AckLoop s.edge.acks.names { manifests := scan.manifests
                                              transactionPaths := s.edge.applying.names
                                              events := scan.events
                                              result.seen := s.edge.acks.names.length
                                              result.manifestErrors := scan.errors } s := by
      cases hscan
      refine ⟨Folder.names_nodup _, fun _ => Folder.mem_names.symm, fun _ _ _ => ?_,
        fun _ => Folder.mem_names⟩
      rw [ApplyCall.scanOf_listed_eq]
    refine Safe.bind (safe_acceptAcks_fresh hstart ⟨hevents _ rfl, rfl⟩) ?_
      fun _ _ ⟨_, habsurd, _⟩ => nomatch habsurd
    rintro progress s₁ ⟨_, hprogress, haccepts, hloop, hfresh⟩
    cases hprogress
    have hstart₁ := hloop.transactionLoop hfresh
    refine Safe.bind ((safe_applyTransactions hstart₁).mono
      (fun _ h => (haccepts.advances.trans h).resumes) fun _ _ h => h) ?_
      fun _ _ ⟨_, _, habsurd, _⟩ => nomatch habsurd
    rintro progress s₂ ⟨_, applieds, hprogress, hadvances, hloop⟩
    cases hprogress
    have hall := haccepts.advances.trans hadvances
    have hwhole : call.WholeLedger s → call.WholeLedger s₂ := by
      rw [ApplyCall.WholeLedger, ApplyCall.WholeLedger, hall.ledger]
      exact id
    refine (safe_finishCall hloop hwhole).mono (fun _ h => hall.resumes.trans h) ?_
    rintro result s₃ ⟨hresumes, hend⟩
    refine ⟨hall.resumes.trans hresumes, fun hfault => ?_⟩
    obtain ⟨hresult, hdone⟩ := hend hfault
    refine ⟨_, hresult, ?_, hdone⟩
    rw [hloop.applied, ← hall.pending, hloop.pending]
    exact congrArg List.length (List.append_nil _).symm

end Finishing

end MiryFormal
