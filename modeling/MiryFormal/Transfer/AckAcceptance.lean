import MiryFormal.Transfer.AckOutcome

/-!
# The loop over the ACKs, cut anywhere

At every cut the pending transactions are those of the start.
-/

namespace MiryFormal

set_option autoImplicit false

open Program TransferOp TransferFiles

/-! ## What a cut keeps -/

/-- The ledger of the date of the call does not end within a line. -/
def ApplyCall.WholeLedger (call : ApplyCall) (s : TransferFiles) : Prop :=
  ((s.edge.ledger.read call.utcDate).getD {}).torn = false

instance (call : ApplyCall) (s : TransferFiles) : Decidable (call.WholeLedger s) :=
  inferInstanceAs (Decidable (_ = false))

namespace TransferFiles

/-- A call from `s'` leads where one from `s` does. The entries are kept on condition `whole`. -/
structure Resumes (whole : Prop) (s s' : TransferFiles) : Prop where
  settled : s'.settled = s.settled
  accounted : whole → ∀ chunkId ms kind,
    s'.Accounted (.ofAck chunkId ms kind) ↔ s.Accounted (.ofAck chunkId ms kind)

/-- The transactions are worked on. -/
structure Advances (s s' : TransferFiles) : Prop where
  settled : s'.settled = s.settled
  ledger : s'.edge.ledger = s.edge.ledger
  pendingAt : ∀ name, s'.pendingAt name = s.pendingAt name

/-- The ACKs are worked on. -/
structure Accepts (s s' : TransferFiles) : Prop where
  chunks : s'.chunkFiles = s.chunkFiles
  ledger : s'.edge.ledger = s.edge.ledger
  pendingAt : ∀ name, s'.pendingAt name = s.pendingAt name

variable {whole : Prop} {s s' s'' : TransferFiles}

namespace Resumes

theorem refl : Resumes whole s s := ⟨rfl, fun _ _ _ _ => Iff.rfl⟩

theorem trans (h : Resumes whole s s') (h' : Resumes whole s' s'') : Resumes whole s s'' :=
  ⟨h'.settled.trans h.settled, fun hwhole chunkId ms kind =>
    (h'.accounted hwhole chunkId ms kind).trans (h.accounted hwhole chunkId ms kind)⟩

theorem mono {whole' : Prop} (h : Resumes whole s s') (hwhole : whole' → whole) :
    Resumes whole' s s' :=
  ⟨h.settled, fun hw => h.accounted (hwhole hw)⟩

end Resumes

namespace Advances

theorem refl : Advances s s := ⟨rfl, rfl, fun _ => rfl⟩

theorem trans (h : Advances s s') (h' : Advances s' s'') : Advances s s'' :=
  ⟨h'.settled.trans h.settled, h'.ledger.trans h.ledger,
    fun name => (h'.pendingAt name).trans (h.pendingAt name)⟩

theorem pending (h : Advances s s') : s'.pending = s.pending := pending_congr h.pendingAt

theorem resumes (h : Advances s s') : Resumes whole s s' := by
  refine ⟨h.settled, fun _ chunkId ms kind => ?_⟩
  rw [Accounted, Accounted, h.pending, ledgerIds, h.ledger, ledgerIds]

end Advances

namespace Accepts

theorem refl : Accepts s s := ⟨rfl, rfl, fun _ => rfl⟩

theorem trans (h : Accepts s s') (h' : Accepts s' s'') : Accepts s s'' :=
  ⟨h'.chunks.trans h.chunks, h'.ledger.trans h.ledger,
    fun name => (h'.pendingAt name).trans (h.pendingAt name)⟩

theorem advances (h : Accepts s s') : Advances s s' := by
  refine ⟨?_, h.ledger, h.pendingAt⟩
  rw [settled, settled, h.chunks, pending_congr h.pendingAt]

theorem listed (h : Accepts s s') : s'.listed = s.listed := by
  have hmanifests : s'.edge.manifests = s.edge.manifests := congrArg ChunkFiles.manifests h.chunks
  rw [TransferFiles.listed, ApplyCall.scanOf, hmanifests]
  rfl

end Accepts

end TransferFiles

/-! ## Accepting the ACKs -/

section Accepting
variable {call : ApplyCall} {sha256 : Bytes → String} {fault : Option AppendFault}
  {progress progress' : ApplyProgress} {name : String} {names : List String}
  {s s' : TransferFiles}

theorem accepts_writeTransaction {ack : Ack} {manifest : ChunkManifest} {content : Option Ack}
    (hnew : s.edge.applying.read (transactionName ack.chunkId) = none)
    (hack : s.edge.acks.read name = some content)
    (hagreed : agreed s.listed name content = some (ack, manifest)) (acceptedAt : Int) :
    s.Accepts (s.writeTransaction (transactionName ack.chunkId) ⟨ack, manifest, acceptedAt⟩) := by
  obtain ⟨-, hname, -⟩ := agreed_eq_some.mp hagreed
  subst hname
  exact ⟨rfl, rfl, fun _ => pendingAt_writeTransaction hnew hack hagreed acceptedAt⟩

theorem AckStep.accepts (h : AckStep call progress name s progress' s') {content : Option Ack}
    (hack : s.edge.acks.read name = some content)
    (hlisted : ∀ content, agreed progress.manifests name content = agreed s.listed name content) :
    s.Accepts s' := by
  cases h with
  | refused rejected hagreed hmanifests hpaths =>
    refine ⟨rfl, rfl, fun _ => pendingAt_consumeAck fun found joined hfound hjoined => ?_⟩
    rw [← hlisted, hagreed found hfound] at hjoined
    cases hjoined
  | known rejected hagreed hknown hmanifests hpaths =>
    refine ⟨rfl, rfl, fun _ => pendingAt_consumeAck fun found joined hfound hjoined => ?_⟩
    rw [← hlisted, hagreed found hfound] at hjoined
    cases hjoined
    exact hknown
  | @joined ack manifest hagreed hnew hmanifests hpaths =>
    have hjoined := (hlisted content).symm.trans (hagreed content hack)
    refine (accepts_writeTransaction hnew hack hjoined call.now).trans
      ⟨rfl, rfl, fun _ => pendingAt_consumeAck fun found other hfound hother => ?_⟩
    have hsame := ((hlisted found).symm.trans (hagreed found hfound)).symm.trans hother
    cases hsame
    show (s.edge.applying.write _ _).read _ ≠ none
    rw [Folder.read_write_self]
    exact Option.some_ne_none _

/-- Where the loop over the ACKs stands. -/
structure AckLoop (names : List String) (progress : ApplyProgress) (s : TransferFiles) : Prop where
  nodup : names.Nodup
  acks : ∀ name, s.edge.acks.read name ≠ none ↔ name ∈ names
  listed : ∀ name ∈ names, ∀ content,
    agreed progress.manifests name content = agreed s.listed name content
  paths : ∀ name, name ∈ progress.transactionPaths ↔ s.edge.applying.read name ≠ none

theorem agreed_pop {manifests : List (String × ChunkManifest)} {removed : String}
    (hne : name ≠ ackName removed) (content : Option Ack) :
    agreed (KeyedDict.pop id removed manifests) name content = agreed manifests name content := by
  cases content with
  | none => rfl
  | some ack =>
    simp only [agreed, Option.bind_some]
    split
    · rename_i hname
      have hid : removed ≠ ack.chunkId := by
        rintro rfl
        exact hne hname
      rw [KeyedDict.get_pop, if_neg hid]
    · rfl

theorem AckLoop.step (h : AckLoop (name :: names) progress s)
    (hstep : AckStep call progress name s progress' s') : AckLoop names progress' s' := by
  obtain ⟨hnotmem, hnodup⟩ := List.nodup_cons.mp h.nodup
  obtain ⟨content, hack⟩ :=
    Option.ne_none_iff_exists'.mp ((h.acks name).mpr List.mem_cons_self)
  have haccepts := hstep.accepts hack (h.listed name List.mem_cons_self)
  have hconsumed : s'.edge.acks = s.edge.acks.remove name := by cases hstep <;> rfl
  have hpopped : progress'.manifests = progress.manifests ∨
      ∃ chunkId, name = ackName chunkId ∧
        progress'.manifests = KeyedDict.pop id chunkId progress.manifests := by
    cases hstep with
    | refused rejected hagreed hmanifests hpaths => exact .inl hmanifests
    | known rejected hagreed hknown hmanifests hpaths =>
      obtain ⟨-, hname, -⟩ := agreed_eq_some.mp (hagreed content hack)
      exact hmanifests.imp_right fun hpop => ⟨_, hname, hpop⟩
    | joined hagreed hnew hmanifests hpaths =>
      obtain ⟨-, hname, -⟩ := agreed_eq_some.mp (hagreed content hack)
      exact .inr ⟨_, hname, hmanifests⟩
  refine ⟨hnodup, fun other => ?_, fun other hm found => ?_, fun other => ?_⟩
  · rw [hconsumed, Folder.read_remove]
    by_cases heq : name = other
    · subst heq
      rw [if_pos rfl]
      exact ⟨fun habsurd => absurd rfl habsurd, fun hm => absurd hm hnotmem⟩
    · rw [if_neg heq, h.acks, List.mem_cons, or_iff_right (Ne.symm heq)]
  · rw [haccepts.listed, ← h.listed other (List.mem_cons_of_mem _ hm)]
    rcases hpopped with hsame | ⟨chunkId, hname, hpop⟩
    · rw [hsame]
    · rw [hpop]
      refine agreed_pop (fun heq => hnotmem ?_) found
      rw [hname, ← heq]
      exact hm
  · cases hstep with
    | refused rejected hagreed hmanifests hpaths => rw [hpaths, h.paths]; rfl
    | known rejected hagreed hknown hmanifests hpaths =>
      show _ ↔ s.edge.applying.read other ≠ none
      rw [← h.paths]
      rcases hpaths with hsame | happended
      · rw [hsame]
      · rw [happended, List.mem_append, List.mem_singleton, or_iff_left_iff_imp]
        rintro rfl
        exact (h.paths _).mpr hknown
    | joined hagreed hnew hmanifests hpaths =>
      show _ ↔ (s.edge.applying.write _ _).read other ≠ none
      rw [hpaths, List.mem_append, List.mem_singleton, h.paths, Folder.read_write]
      split
      · rename_i heq
        simp [heq]
      · rename_i hne
        rw [or_iff_left (Ne.symm hne)]

/-- The loop over the ACKs consumes them all. -/
theorem safe_acceptAcks (h : AckLoop names progress s) :
    AloneSafe sha256 fault s.Accepts
      (fun result s' => ∃ progress', result = .ok progress' ∧ s.Accepts s' ∧
        AckLoop [] progress' s')
      (names.foldlM call.acceptAck progress) s := by
  induction names generalizing progress s with
  | nil => exact ⟨.refl, progress, rfl, .refl, h⟩
  | cons name names ih =>
    obtain ⟨content, hack⟩ :=
      Option.ne_none_iff_exists'.mp ((h.acks name).mpr List.mem_cons_self)
    have hlisted := h.listed name List.mem_cons_self
    have hfirst : AloneSafe sha256 fault s.Accepts
        (fun result s' => ∃ progress', result = .ok progress' ∧ s.Accepts s' ∧
          AckLoop names progress' s') (call.acceptAck progress name) s := by
      refine ApplyCall.safe_acceptAck hack .refl (fun ack manifest hagreed hnew => ?_)
        fun progress' s' hstep => ?_
      · rw [hlisted] at hagreed
        exact accepts_writeTransaction hnew hack hagreed call.now
      · have haccepts := hstep.accepts hack hlisted
        exact ⟨haccepts, progress', rfl, haccepts, h.step hstep⟩
    rw [List.foldlM_cons]
    refine Safe.bind hfirst ?_ fun _ _ habsurd => nomatch habsurd
    rintro progress' s₁ ⟨_, hprogress, haccepts, hloop⟩
    cases hprogress
    refine (ih hloop).mono (fun _ h' => haccepts.trans h') ?_
    rintro result s₂ ⟨last, hresult, haccepts', hdone⟩
    exact ⟨last, hresult, haccepts.trans haccepts', hdone⟩

end Accepting

/-! ## What the loop over the ACKs enters -/

/-- No entry of an applied chunk is among the events. -/
def RunEvents (events : List TransferEvent) : Prop :=
  ∀ event ∈ events, ∃ applyId subject kind, event.eventId = .ofRun applyId subject kind

namespace RunEvents
variable {events : List TransferEvent} {event : TransferEvent}

theorem nil : RunEvents [] := fun _ hm => nomatch hm

theorem snoc (h : RunEvents events) {applyId subject : String} {kind : TransferEventKind}
    (hevent : event.eventId = .ofRun applyId subject kind) : RunEvents (events ++ [event]) := by
  intro later hm
  rcases List.mem_append.mp hm with hm | hm
  · exact h later hm
  · cases List.mem_singleton.mp hm
    exact ⟨applyId, subject, kind, hevent⟩

end RunEvents

/-- Nothing is applied yet. -/
def ApplyProgress.Fresh (progress : ApplyProgress) : Prop :=
  RunEvents progress.events ∧ progress.result.applied = 0

namespace ApplyCall
variable {call : ApplyCall} {progress : ApplyProgress} {name : String} {ack : Ack}
  {manifest : ChunkManifest}

theorem runEvents_scanReady {scan : ReadyScan} (h : RunEvents scan.events) (path : RelPath)
    (content : Option ChunkManifest) : RunEvents (call.scanReady scan path content).events := by
  cases content with
  | none => exact h.snoc rfl
  | some manifest =>
    unfold scanReady
    dsimp only
    split
    · exact h.snoc rfl
    · split
      · exact h
      · split
        · split
          · exact h.snoc rfl
          · exact h
        · exact h

theorem yields_readyManifests :
    call.readyManifests.Yields fun scan => RunEvents scan.events := by
  refine Yields.bind (Yields.any _) fun paths _ => ?_
  refine Yields.foldlM RunEvents.nil fun scan path h => ?_
  refine Yields.bind (Yields.any _) fun content _ => ?_
  exact runEvents_scanReady h path _

theorem yields_ackedManifestIn {chunkId : String} {dates : List Int} {errors : Nat}
    {events : List TransferEvent} {known : Option ChunkManifest} (h : RunEvents events) :
    (call.ackedManifestIn chunkId name dates known errors events).Yields
      fun found => RunEvents found.2.2 := by
  induction dates generalizing known errors events with
  | nil => exact h
  | cons utcDate later ih =>
    refine Yields.bind (Yields.any _) fun content _ => ?_
    split
    · exact ih (h.snoc rfl)
    · split
      · exact ih (h.snoc rfl)
      · split
        · exact ih (h.snoc rfl)
        · split
          · exact h.snoc rfl
          · exact ih h

theorem yields_reject {reason : String} {count : AckApplyResult → AckApplyResult}
    {event : TransferEvent} (h : progress.Fresh)
    (hcount : ∀ result, (count result).applied = result.applied) {applyId subject : String}
    {kind : TransferEventKind} (hevent : event.eventId = .ofRun applyId subject kind) :
    (progress.reject name reason count event).Yields ApplyProgress.Fresh := by
  refine Yields.bind (Yields.any _) fun _ _ => ?_
  exact ⟨h.1.snoc hevent, (hcount _).trans h.2⟩

theorem yields_acceptUnlisted (h : progress.Fresh) :
    (call.acceptUnlisted progress name ack).Yields ApplyProgress.Fresh := by
  refine Yields.bind (Yields.bind (Yields.any _) fun tombstones _ =>
    yields_ackedManifestIn h.1) fun found hfound => ?_
  obtain ⟨known, errors, events⟩ := found
  cases known with
  | none => exact yields_reject ⟨hfound, h.2⟩ (fun _ => rfl) rfl
  | some manifest =>
    dsimp only
    split
    · exact yields_reject ⟨hfound, h.2⟩ (fun _ => rfl) rfl
    · refine Yields.bind (Yields.any _) fun _ _ => ?_
      exact ⟨RunEvents.snoc hfound rfl, h.2⟩

theorem yields_acceptListed (h : progress.Fresh) :
    (call.acceptListed progress name ack manifest).Yields ApplyProgress.Fresh := by
  refine Yields.bind (Yields.any _) fun present _ => ?_
  split
  · refine Yields.bind (Yields.any _) fun existing _ => ?_
    dsimp only
    split
    · exact Yields.bind (Yields.any _) fun _ _ => h
    · exact yields_reject h (fun _ => rfl) rfl
  · refine Yields.bind (Yields.any _) fun _ _ => ?_
    exact Yields.bind (Yields.any _) fun _ _ => h

theorem yields_acceptAck (h : progress.Fresh) :
    (call.acceptAck progress name).Yields ApplyProgress.Fresh := by
  refine Yields.bind (Yields.any _) fun content _ => ?_
  split
  · exact yields_reject h (fun _ => rfl) rfl
  · split
    · exact yields_reject h (fun _ => rfl) rfl
    · split
      · exact yields_acceptUnlisted h
      · split
        · exact yields_reject h (fun _ => rfl) rfl
        · exact yields_acceptListed h

end ApplyCall

end MiryFormal
