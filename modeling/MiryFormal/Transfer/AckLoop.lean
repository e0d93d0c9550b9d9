import MiryFormal.Transfer.ApplyAcks

/-!
# A call of `apply_acks` by itself

No other program runs beside the call. It may end between any two operations, and its append
to the ledger may fail.
-/

namespace MiryFormal

set_option autoImplicit false

open Program TransferOp

/-- The append fails after `kept` whole lines, and perhaps within a line. -/
structure AppendFault where
  kept : Nat
  broken : Bool

namespace TransferOp

def IsAppend : TransferOp → Prop
  | appendLedger _ _ => True
  | _ => False

/-- An operation of a call whose append may fail. -/
def faulty (sha256 : Bytes → String) (fault : Option AppendFault) (op : TransferOp)
    (s : TransferFiles) : op.Answer × TransferFiles :=
  match fault, op with
  | some fault, appendLedger utcDate batch =>
      (.error .osError, { s with
        edge.ledger := s.edge.ledger.write utcDate
          (((s.edge.ledger.read utcDate).getD {}).appendFailing batch fault.kept fault.broken) })
  | _, op => run sha256 op s

theorem faulty_eq {sha256 : Bytes → String} {fault : Option AppendFault} {op : TransferOp}
    (hop : ¬ op.IsAppend) (s : TransferFiles) : faulty sha256 fault op s = run sha256 op s := by
  cases fault with
  | none => rfl
  | some fault => cases op <;> first | rfl | exact absurd trivial hop

end TransferOp

/-! ## Rules -/

/-- Every cut of the program satisfies `P`, its outcome `Q`. -/
abbrev AloneSafe {α : Type} (sha256 : Bytes → String) (fault : Option AppendFault)
    (P : TransferFiles → Prop) (Q : Except Failure α → TransferFiles → Prop)
    (p : TransferProgram α) (s : TransferFiles) : Prop :=
  p.Safe (fun op s => .ok (TransferOp.faulty sha256 fault op s)) P Q s

namespace AloneSafe
variable {α β : Type} {sha256 : Bytes → String} {fault : Option AppendFault}
  {P : TransferFiles → Prop} {Q : Except Failure α → TransferFiles → Prop}
  {R : Except Failure β → TransferFiles → Prop} {s s' : TransferFiles} {op : TransferOp}

theorem start {p : TransferProgram α} (h : AloneSafe sha256 fault P Q p s) : P s := by
  cases p <;> exact h.1

theorem execAlone {p : TransferProgram α} (h : AloneSafe sha256 none P Q p s) :
    Q (MiryFormal.execAlone sha256 p s).1 (MiryFormal.execAlone sha256 p s).2 := Safe.exec h

theorem io {Q : Except Failure op.Value → TransferFiles → Prop} {value : op.Value}
    (hop : ¬ op.IsAppend) (hrun : TransferOp.run sha256 op s = (.ok value, s')) (hs : P s)
    (hs' : P s') (hQ : Q (.ok value) s') : AloneSafe sha256 fault P Q (Program.io op) s := by
  have hfaulty : faulty sha256 fault op s = (.ok value, s') := (faulty_eq hop s).trans hrun
  exact Safe.of_ok (congrArg Except.ok hfaulty) hs ⟨hs', hQ⟩

theorem bind_io {f : op.Value → TransferProgram α} {value : op.Value} (hop : ¬ op.IsAppend)
    (hrun : TransferOp.run sha256 op s = (.ok value, s')) (hs : P s)
    (hnext : AloneSafe sha256 fault P Q (f value) s') :
    AloneSafe sha256 fault P Q (Program.io op >>= f) s := by
  have hfaulty : faulty sha256 fault op s = (.ok value, s') := (faulty_eq hop s).trans hrun
  exact Safe.of_ok (congrArg Except.ok hfaulty) hs hnext

theorem bind_attempt {f : Except Failure op.Value → TransferProgram α}
    {result : Except Failure op.Value} (hop : ¬ op.IsAppend)
    (hrun : TransferOp.run sha256 op s = (result, s')) (hs : P s)
    (hnext : AloneSafe sha256 fault P Q (f result) s') :
    AloneSafe sha256 fault P Q ((Program.io op).attempt >>= f) s := by
  have hfaulty : faulty sha256 fault op s = (result, s') := (faulty_eq hop s).trans hrun
  refine Safe.of_ok (congrArg Except.ok hfaulty) hs ?_
  cases result <;> exact hnext

end AloneSafe

/-! ## The ready manifests -/

namespace ApplyCall
variable (call : ApplyCall) {sha256 : Bytes → String} {fault : Option AppendFault}
  {P : TransferFiles → Prop} {s s' : TransferFiles}

/-- What `_ready_manifests` finds. -/
def scanOf (s : TransferFiles) : ReadyScan :=
  s.edge.manifests.names.foldl
    (fun scan path => call.scanReady scan path (s.edge.manifests.read path).join) {}

theorem safe_scanPath {Q : Except Failure ReadyScan → TransferFiles → Prop} {scan : ReadyScan}
    {path : RelPath} (hs : P s)
    (hQ : Q (.ok (call.scanReady scan path (s.edge.manifests.read path).join)) s) :
    AloneSafe sha256 fault P Q (do
      let content ← (io (readManifest path)).attempt
      pure (call.scanReady scan path (valid content))) s := by
  refine AloneSafe.bind_attempt id rfl hs ⟨hs, ?_⟩
  have hcontent : valid (found (s.edge.manifests.read path)) =
      (s.edge.manifests.read path).join := by
    cases s.edge.manifests.read path <;> rfl
  rwa [hcontent]

theorem safe_readyManifests (hs : P s) :
    AloneSafe sha256 fault P (fun result s' => result = .ok (call.scanOf s) ∧ s' = s)
      call.readyManifests s := by
  refine AloneSafe.bind_io id rfl hs ?_
  unfold scanOf
  generalize ({} : ReadyScan) = scan
  induction s.edge.manifests.names generalizing scan with
  | nil => exact ⟨hs, rfl, rfl⟩
  | cons path paths ih =>
    rw [List.foldlM_cons]
    have hpath := @safe_scanPath call sha256 fault P s
      (fun result s' => result = .ok (call.scanReady scan path
        (s.edge.manifests.read path).join) ∧ s' = s) scan path hs ⟨rfl, rfl⟩
    refine Safe.bind hpath ?_ fun _ _ h => nomatch h.1
    rintro scan' s' ⟨hscan, rfl⟩
    cases hscan
    exact ih _

/-- A manifest that the scan lists lies at its path. -/
theorem scanOf_listed : ListsOnly
    (fun manifest => s.edge.manifests.read manifest.manifestPath = some (some manifest))
    (call.scanOf s).manifests := by
  unfold scanOf
  have hstart : ListsOnly
      (fun manifest => s.edge.manifests.read manifest.manifestPath = some (some manifest))
      ({} : ReadyScan).manifests := fun _ _ hget => nomatch hget
  generalize ({} : ReadyScan) = scan at hstart ⊢
  induction s.edge.manifests.names generalizing scan with
  | nil => exact hstart
  | cons path paths ih =>
    refine ih _ (hstart.scanReady fun manifest hcontent hpath => ?_)
    rw [← hpath]
    exact Option.join_eq_some_iff.mp hcontent

/-! ## The tombstones -/

theorem safe_ackedManifestIn (hs : P s) (chunkId name : String) (dates : List Int)
    (manifest : Option ChunkManifest) (errors : Nat) (events : List TransferEvent) :
    AloneSafe sha256 fault P (fun result s' => (∃ known, result = .ok known) ∧ s' = s)
      (call.ackedManifestIn chunkId name dates manifest errors events) s := by
  induction dates generalizing manifest errors events with
  | nil => exact ⟨hs, ⟨_, rfl⟩, rfl⟩
  | cons utcDate later ih =>
    refine AloneSafe.bind_attempt id rfl hs ?_
    split
    · exact ih _ _ _
    · split
      · exact ih _ _ _
      · split
        · exact ih _ _ _
        · split
          · exact ⟨hs, ⟨_, rfl⟩, rfl⟩
          · exact ih _ _ _

theorem safe_ackedManifest (hs : P s) (chunkId : String) (events : List TransferEvent) :
    AloneSafe sha256 fault P (fun result s' => (∃ known, result = .ok known) ∧ s' = s)
      (call.ackedManifest chunkId events) s :=
  AloneSafe.bind_io id rfl hs (call.safe_ackedManifestIn hs _ _ _ _ _ _)

end ApplyCall

/-! ## One ACK -/

/-- The ACK in a file, with the listed manifest that it agrees with. -/
def agreed (manifests : List (String × ChunkManifest)) (name : String) (content : Option Ack) :
    Option (Ack × ChunkManifest) :=
  content.bind fun ack =>
    if name = ackName ack.chunkId then
      (KeyedDict.get id ack.chunkId manifests).bind fun manifest =>
        if ack.sha256 = manifest.sha256 then some (ack, manifest) else none
    else none

theorem agreed_eq_some {manifests : List (String × ChunkManifest)} {name : String}
    {content : Option Ack} {ack : Ack} {manifest : ChunkManifest} :
    agreed manifests name content = some (ack, manifest) ↔
      content = some ack ∧ name = ackName ack.chunkId ∧
        KeyedDict.get id ack.chunkId manifests = some manifest ∧
          ack.sha256 = manifest.sha256 := by
  cases content with
  | none => simp [agreed]
  | some found =>
    simp only [agreed, Option.bind_some]
    constructor
    · intro h
      split at h
      · obtain ⟨listed, hget, hsha⟩ := Option.bind_eq_some_iff.mp h
        split at hsha
        · cases hsha
          exact ⟨rfl, ‹_›, hget, ‹_›⟩
        · cases hsha
      · cases h
    · rintro ⟨hfound, hname, hget, hsha⟩
      cases hfound
      rw [if_pos hname, hget, Option.bind_some, if_pos hsha]

namespace TransferFiles

/-- The file of an ACK is gone, and perhaps among the rejected ones. -/
def consumeAck (s : TransferFiles) (name : String) (rejected : List Rejected) : TransferFiles :=
  { s with edge.acks := s.edge.acks.remove name, edge.rejected := rejected }

def writeTransaction (s : TransferFiles) (name : String) (transaction : AckTransaction) :
    TransferFiles :=
  { s with edge.applying := s.edge.applying.write name (some transaction) }

end TransferFiles

/-- What `acceptAck` may do to its progress and the files. -/
inductive AckStep (call : ApplyCall) (progress : ApplyProgress) (name : String)
    (s : TransferFiles) : ApplyProgress → TransferFiles → Prop
  /-- No manifest is joined with the ACK. -/
  | refused {progress' : ApplyProgress} (rejected : List Rejected)
      (hagreed : ∀ content, s.edge.acks.read name = some content →
        agreed progress.manifests name content = none)
      (hmanifests : progress'.manifests = progress.manifests)
      (hpaths : progress'.transactionPaths = progress.transactionPaths) :
      AckStep call progress name s progress' (s.consumeAck name rejected)
  /-- The chunk has a transaction already. -/
  | known {progress' : ApplyProgress} {ack : Ack} {manifest : ChunkManifest}
      (rejected : List Rejected)
      (hagreed : ∀ content, s.edge.acks.read name = some content →
        agreed progress.manifests name content = some (ack, manifest))
      (hknown : s.edge.applying.read (transactionName ack.chunkId) ≠ none)
      (hmanifests : progress'.manifests = progress.manifests ∨
        progress'.manifests = KeyedDict.pop id ack.chunkId progress.manifests)
      (hpaths : progress'.transactionPaths = progress.transactionPaths ∨
        progress'.transactionPaths = progress.transactionPaths ++ [transactionName ack.chunkId]) :
      AckStep call progress name s progress' (s.consumeAck name rejected)
  | joined {progress' : ApplyProgress} {ack : Ack} {manifest : ChunkManifest}
      (hagreed : ∀ content, s.edge.acks.read name = some content →
        agreed progress.manifests name content = some (ack, manifest))
      (hnew : s.edge.applying.read (transactionName ack.chunkId) = none)
      (hmanifests : progress'.manifests = KeyedDict.pop id ack.chunkId progress.manifests)
      (hpaths : progress'.transactionPaths =
        progress.transactionPaths ++ [transactionName ack.chunkId]) :
      AckStep call progress name s progress'
        ((s.writeTransaction (transactionName ack.chunkId) ⟨ack, manifest, call.now⟩).consumeAck
          name s.edge.rejected)

namespace ApplyCall
variable {call : ApplyCall} {sha256 : Bytes → String} {fault : Option AppendFault}
  {P : TransferFiles → Prop} {Q : Except Failure ApplyProgress → TransferFiles → Prop}
  {progress : ApplyProgress} {name : String} {s : TransferFiles} {content : Option Ack}

theorem safe_reject (hread : s.edge.acks.read name = some content) (hs : P s) {reason : String}
    {count : AckApplyResult → AckApplyResult} {event : TransferEvent}
    (hstep : ∀ progress' rejected, progress'.manifests = progress.manifests →
      progress'.transactionPaths = progress.transactionPaths →
        P (s.consumeAck name rejected) ∧ Q (.ok progress') (s.consumeAck name rejected)) :
    AloneSafe sha256 fault P Q (progress.reject name reason count event) s := by
  have hrun : TransferOp.run sha256 (quarantineAck name reason) s =
      (.ok (), s.consumeAck name (s.edge.rejected ++ [⟨name, reason⟩])) := by
    rw [TransferOp.run, hread]
    rfl
  exact AloneSafe.bind_io id hrun hs (hstep _ _ rfl rfl)

theorem run_unlinkAck (hread : s.edge.acks.read name = some content) :
    TransferOp.run sha256 (unlinkAck name) s = (.ok (), s.consumeAck name s.edge.rejected) := by
  rw [TransferOp.run, hread]
  rfl

theorem safe_acceptUnlisted (hread : s.edge.acks.read name = some content) (hs : P s) (ack : Ack)
    (hstep : ∀ progress' rejected, progress'.manifests = progress.manifests →
      progress'.transactionPaths = progress.transactionPaths →
        P (s.consumeAck name rejected) ∧ Q (.ok progress') (s.consumeAck name rejected)) :
    AloneSafe sha256 fault P Q (call.acceptUnlisted progress name ack) s := by
  refine Safe.bind (call.safe_ackedManifest hs ack.chunkId progress.events) ?_
    fun _ _ h => nomatch h.1
  rintro known s' ⟨-, rfl⟩
  obtain ⟨known, errors, events⟩ := known
  cases known with
  | none => exact safe_reject hread hs hstep
  | some manifest =>
    dsimp only
    split
    · exact safe_reject hread hs hstep
    · exact AloneSafe.bind_io id (run_unlinkAck hread) hs (hstep _ _ rfl rfl)

theorem safe_acceptListed (hread : s.edge.acks.read name = some content) (hs : P s) {ack : Ack}
    {manifest : ChunkManifest}
    (hagreed : agreed progress.manifests name content = some (ack, manifest))
    (hwritten : s.edge.applying.read (transactionName ack.chunkId) = none →
      P (s.writeTransaction (transactionName ack.chunkId) ⟨ack, manifest, call.now⟩))
    (hstep : ∀ progress' s', AckStep call progress name s progress' s' →
      P s' ∧ Q (.ok progress') s') :
    AloneSafe sha256 fault P Q (call.acceptListed progress name ack manifest) s := by
  have hall : ∀ found, s.edge.acks.read name = some found →
      agreed progress.manifests name found = some (ack, manifest) := by
    intro found hfound
    cases Option.some.inj (hread.symm.trans hfound)
    exact hagreed
  refine AloneSafe.bind_io id rfl hs ?_
  cases hexisting : s.edge.applying.read (transactionName ack.chunkId) with
  | some existing =>
    have hknown : s.edge.applying.read (transactionName ack.chunkId) ≠ none := by
      rw [hexisting]
      simp
    rw [if_pos Option.isSome_some]
    refine AloneSafe.bind_attempt id rfl hs ?_
    dsimp only
    split
    · exact AloneSafe.bind_io id (run_unlinkAck hread) hs
        (hstep _ _ (.known _ hall hknown (.inr rfl) (.inr rfl)))
    · exact safe_reject hread hs fun _ rejected hmanifests hpaths =>
        hstep _ _ (.known rejected hall hknown (.inl hmanifests) (.inl hpaths))
  | none =>
    rw [Option.isSome_none, if_neg Bool.false_ne_true]
    have hread' : (s.writeTransaction (transactionName ack.chunkId)
        ⟨ack, manifest, call.now⟩).edge.acks.read name = some content := hread
    refine AloneSafe.bind_io id rfl hs ?_
    exact AloneSafe.bind_io id (run_unlinkAck hread') (hwritten hexisting)
      (hstep _ _ (.joined hall hexisting rfl rfl))

/-- What one ACK leads to, at every cut. -/
theorem safe_acceptAck (hread : s.edge.acks.read name = some content) (hs : P s)
    (hwritten : ∀ ack manifest, agreed progress.manifests name content = some (ack, manifest) →
      s.edge.applying.read (transactionName ack.chunkId) = none →
        P (s.writeTransaction (transactionName ack.chunkId) ⟨ack, manifest, call.now⟩))
    (hstep : ∀ progress' s', AckStep call progress name s progress' s' →
      P s' ∧ Q (.ok progress') s') :
    AloneSafe sha256 fault P Q (call.acceptAck progress name) s := by
  have hrefused : agreed progress.manifests name content = none → ∀ progress' rejected,
      progress'.manifests = progress.manifests →
        progress'.transactionPaths = progress.transactionPaths →
          P (s.consumeAck name rejected) ∧ Q (.ok progress') (s.consumeAck name rejected) := by
    intro hnone progress' rejected hmanifests hpaths
    refine hstep _ _ (.refused rejected (fun found hfound => ?_) hmanifests hpaths)
    cases Option.some.inj (hread.symm.trans hfound)
    exact hnone
  have hrun : TransferOp.run sha256 (readAck name) s = (.ok content, s) := by
    rw [TransferOp.run, hread, found]
  refine AloneSafe.bind_attempt id hrun hs ?_
  cases content with
  | none => exact safe_reject hread hs (hrefused rfl)
  | some ack =>
    show AloneSafe sha256 fault P Q (if name ≠ ackName ack.chunkId then _ else _) s
    by_cases hname : name = ackName ack.chunkId
    · rw [if_neg (not_not.mpr hname)]
      cases hget : KeyedDict.get id ack.chunkId progress.manifests with
      | none =>
        refine safe_acceptUnlisted hread hs ack (hrefused ?_)
        simp [agreed, hget]
      | some manifest =>
        dsimp only
        by_cases hsha : ack.sha256 = manifest.sha256
        · rw [if_neg (not_not.mpr hsha)]
          have hagreed : agreed progress.manifests name (some ack) = some (ack, manifest) :=
            agreed_eq_some.mpr ⟨rfl, hname, hget, hsha⟩
          exact safe_acceptListed hread hs hagreed (hwritten ack manifest hagreed) hstep
        · rw [if_pos hsha]
          refine safe_reject hread hs (hrefused ?_)
          simp [agreed, hget, hsha]
    · rw [if_pos hname]
      refine safe_reject hread hs (hrefused ?_)
      simp [agreed, hname]

end ApplyCall

end MiryFormal
