import MiryFormal.Transfer.AckLoop

/-!
# What the pending ACKs come to

The transactions that the next call of `apply_acks` applies, the files of their chunks
afterwards, and their entries in the ledger. All three are read off the spool.
-/

namespace MiryFormal

set_option autoImplicit false

open Program TransferOp ApplyCall

/-! ## The files of chunks -/

/-- The folders out of which a transaction takes a chunk. -/
structure ChunkFiles where
  data : Folder RelPath Bytes
  manifests : Folder RelPath (Option ChunkManifest)
  acked : Folder (Int ×ₗ String) (Option ChunkManifest)
  sealedDays : Folder Int DayManifest

def TransferFiles.chunkFiles (s : TransferFiles) : ChunkFiles :=
  ⟨s.edge.data, s.edge.manifests, s.edge.acked, s.edge.sealedDays⟩

namespace ChunkFiles

def retire (files : ChunkFiles) (manifest : ChunkManifest) : ChunkFiles :=
  match files.manifests.read manifest.manifestPath with
  | none => files
  | some content =>
      { files with
        manifests := files.manifests.remove manifest.manifestPath
        acked :=
          if (files.sealedDays.read manifest.utcDate).isSome then files.acked
          else files.acked.write (toLex (manifest.utcDate, manifest.manifestPath.name)) content }

def discard (files : ChunkFiles) (manifest : ChunkManifest) : ChunkFiles :=
  { files with data := files.data.remove manifest.dataPath }

/-- The transaction of a chunk. -/
def settle (files : ChunkFiles) (manifest : ChunkManifest) : ChunkFiles :=
  (files.retire manifest).discard manifest

def settleAll (files : ChunkFiles) (manifests : List ChunkManifest) : ChunkFiles :=
  manifests.foldl settle files

/-- Nothing is left of the chunk. -/
structure Cleared (files : ChunkFiles) (manifest : ChunkManifest) : Prop where
  retired : files.manifests.read manifest.manifestPath = none
  discarded : files.data.read manifest.dataPath = none

/-- No file has come. -/
structure Shrinks (files files' : ChunkFiles) : Prop where
  manifests : ∀ path, files.manifests.read path = none → files'.manifests.read path = none
  data : ∀ path, files.data.read path = none → files'.data.read path = none

namespace Shrinks
variable {files files' files'' : ChunkFiles}

theorem rfl : Shrinks files files := ⟨fun _ h => h, fun _ h => h⟩

theorem trans (h : Shrinks files files') (h' : Shrinks files' files'') : Shrinks files files'' :=
  ⟨fun path hpath => h'.manifests path (h.manifests path hpath),
    fun path hpath => h'.data path (h.data path hpath)⟩

end Shrinks

variable {files files' : ChunkFiles} {manifest : ChunkManifest} {manifests : List ChunkManifest}

theorem Cleared.shrinks (h : files.Cleared manifest) (hshrinks : Shrinks files files') :
    files'.Cleared manifest :=
  ⟨hshrinks.manifests _ h.retired, hshrinks.data _ h.discarded⟩

theorem retire_of_absent (h : files.manifests.read manifest.manifestPath = none) :
    files.retire manifest = files := by
  rw [retire, h]

theorem retire_read : (files.retire manifest).manifests.read manifest.manifestPath = none := by
  unfold retire
  cases h : files.manifests.read manifest.manifestPath with
  | none => exact h
  | some content => exact Folder.read_remove_self _ _

theorem retire_data : (files.retire manifest).data = files.data := by
  unfold retire
  cases files.manifests.read manifest.manifestPath <;> rfl

theorem shrinks_retire : Shrinks files (files.retire manifest) := by
  refine ⟨fun path hpath => ?_, fun path hpath => by rw [retire_data, hpath]⟩
  unfold retire
  cases files.manifests.read manifest.manifestPath with
  | none => exact hpath
  | some content =>
    show (files.manifests.remove manifest.manifestPath).read path = none
    rw [Folder.read_remove, hpath, ite_self]

theorem shrinks_discard : Shrinks files (files.discard manifest) := by
  refine ⟨fun path hpath => hpath, fun path hpath => ?_⟩
  show (files.data.remove manifest.dataPath).read path = none
  rw [Folder.read_remove, hpath, ite_self]

theorem discard_of_absent (h : files.data.read manifest.dataPath = none) :
    files.discard manifest = files := by
  rw [discard, Folder.remove_of_absent h]

theorem shrinks_settle : Shrinks files (files.settle manifest) :=
  shrinks_retire.trans shrinks_discard

theorem cleared_settle : (files.settle manifest).Cleared manifest :=
  ⟨retire_read, Folder.read_remove_self _ _⟩

theorem Cleared.settle_eq (h : files.Cleared manifest) : files.settle manifest = files := by
  rw [settle, retire_of_absent h.retired, discard_of_absent h.discarded]

/-- A transaction that broke off behind its manifest. -/
theorem settle_retire : (files.retire manifest).settle manifest = files.settle manifest := by
  rw [settle, retire_of_absent retire_read, settle]

theorem shrinks_settleAll : Shrinks files (files.settleAll manifests) := by
  induction manifests generalizing files with
  | nil => exact .rfl
  | cons manifest manifests ih => exact shrinks_settle.trans ih

theorem cleared_settleAll (hm : manifest ∈ manifests) :
    (files.settleAll manifests).Cleared manifest := by
  induction manifests generalizing files with
  | nil => cases hm
  | cons first manifests ih =>
    rcases List.mem_cons.mp hm with rfl | hm
    · exact cleared_settle.shrinks shrinks_settleAll
    · exact ih hm

theorem settleAll_of_cleared (h : ∀ manifest ∈ manifests, files.Cleared manifest) :
    files.settleAll manifests = files := by
  induction manifests with
  | nil => rfl
  | cons manifest manifests ih =>
    have hfirst := (h manifest List.mem_cons_self).settle_eq
    show (files.settle manifest).settleAll manifests = files
    rw [hfirst]
    exact ih fun later hm => h later (List.mem_cons_of_mem _ hm)

/-- What is cleared already is passed over. -/
theorem settleAll_resume {done : List ChunkManifest}
    (h : ∀ manifest ∈ done, files.Cleared manifest) :
    files.settleAll (done ++ manifests) = files.settleAll manifests := by
  have happend : files.settleAll (done ++ manifests) = (files.settleAll done).settleAll manifests :=
    List.foldl_append
  rw [happend, settleAll_of_cleared h]

end ChunkFiles

/-! ## The pending transactions -/

/-- The ACK and the chunk of a transaction file that is applied. -/
def transactionOf (content : Option AckTransaction) : Option (Ack × ChunkManifest) :=
  content.bind fun transaction =>
    if transaction.ack.sha256 = transaction.manifest.sha256 then
      some (transaction.ack, transaction.manifest)
    else none

namespace TransferFiles

/-- What `_ready_manifests` lists, in any call. -/
def listed (s : TransferFiles) : List (String × ChunkManifest) :=
  (ApplyCall.scanOf ⟨"", 0⟩ s).manifests

/-- The ACK that becomes the transaction `name`. -/
def joinedAck (s : TransferFiles) (name : String) : Option (Ack × ChunkManifest) :=
  s.edge.acks.names.findSome? fun ackName =>
    (s.edge.acks.read ackName).bind fun content =>
      (agreed s.listed ackName content).filter fun joined =>
        transactionName joined.1.chunkId = name

/-- What the transaction `name` applies. A transaction that is there keeps its ACK. -/
def pendingAt (s : TransferFiles) (name : String) : Option (Ack × ChunkManifest) :=
  match s.edge.applying.read name with
  | some content => transactionOf content
  | none => s.joinedAck name

def pendingNames (s : TransferFiles) : List String :=
  sortedTransactions ((s.edge.applying.names ++ s.edge.acks.names.filterMap fun ackName =>
    (s.edge.acks.read ackName).bind fun content =>
      (agreed s.listed ackName content).map fun joined =>
        transactionName joined.1.chunkId).filter fun name => (s.pendingAt name).isSome)

/-- What the next call applies, in order. -/
def pending (s : TransferFiles) : List (Ack × ChunkManifest) :=
  s.pendingNames.filterMap s.pendingAt

/-- The files of chunks behind the pending transactions. -/
def settled (s : TransferFiles) : ChunkFiles := s.chunkFiles.settleAll (s.pending.map Prod.snd)

/-! ## The ledger -/

/-- The ids of the complete lines of the ledger, over all days. -/
def ledgerIds (s : TransferFiles) : List EventId :=
  s.edge.ledger.names.flatMap fun utcDate =>
    ((s.edge.ledger.read utcDate).getD {}).events.map TransferEvent.eventId

/-- The id of an entry of an applied chunk. -/
def entryId (applied : Ack × ChunkManifest) (kind : TransferEventKind) : EventId :=
  .ofAck applied.2.chunkId (utcText applied.1.durableAt) kind

def entryIds (applied : Ack × ChunkManifest) : List EventId :=
  [entryId applied .ackValidated, entryId applied .remoteGc]

/-- In the ledger, or among the entries of the next call. -/
def Accounted (s : TransferFiles) (eventId : EventId) : Prop :=
  eventId ∈ s.ledgerIds ∨ eventId ∈ s.pending.flatMap entryIds

end TransferFiles

/-! ## Names -/

theorem mem_sortedTransactions {paths : List String} {name : String} :
    name ∈ sortedTransactions paths ↔ name ∈ paths := by
  rw [sortedTransactions, (List.perm_insertionSort _ _).mem_iff, List.mem_dedup]

theorem nodup_sortedTransactions (paths : List String) : (sortedTransactions paths).Nodup :=
  (List.perm_insertionSort _ _).nodup_iff.mpr (List.nodup_dedup paths)

theorem pairwise_sortedTransactions (paths : List String) :
    (sortedTransactions paths).Pairwise (· ≤ ·) :=
  List.pairwise_insertionSort _ _

theorem eq_sortedTransactions {names paths : List String} (hsorted : names.Pairwise (· ≤ ·))
    (hnodup : names.Nodup) (hmem : ∀ name, name ∈ names ↔ name ∈ paths) :
    names = sortedTransactions paths := by
  refine List.Perm.eq_of_pairwise (fun a b _ _ => le_antisymm) hsorted
    (pairwise_sortedTransactions paths) ?_
  refine (List.perm_ext_iff_of_nodup hnodup (nodup_sortedTransactions paths)).mpr fun name => ?_
  rw [hmem, mem_sortedTransactions]

theorem transactionName_inj {chunkId other : String} :
    transactionName chunkId = transactionName other ↔ chunkId = other :=
  String.append_left_inj _

/-! ## The scan -/

namespace ApplyCall
variable {call call' : ApplyCall}

theorem scanReady_alike {scan scan' : ReadyScan} (hmanifests : scan'.manifests = scan.manifests)
    (hconflicted : scan'.conflicted = scan.conflicted) (path : RelPath)
    (content : Option ChunkManifest) :
    (call'.scanReady scan' path content).manifests = (call.scanReady scan path content).manifests ∧
      (call'.scanReady scan' path content).conflicted =
        (call.scanReady scan path content).conflicted := by
  cases content with
  | none => exact ⟨hmanifests, hconflicted⟩
  | some manifest =>
    simp only [scanReady, hmanifests, hconflicted]
    split
    · exact ⟨rfl, rfl⟩
    · split
      · exact ⟨hmanifests, hconflicted⟩
      · split
        · split
          · exact ⟨rfl, rfl⟩
          · exact ⟨hmanifests, hconflicted⟩
        · exact ⟨rfl, rfl⟩

theorem scanOf_listed_eq (s : TransferFiles) : (call.scanOf s).manifests = s.listed := by
  have hall : ∀ (paths : List RelPath) (scan scan' : ReadyScan),
      scan'.manifests = scan.manifests → scan'.conflicted = scan.conflicted →
        (paths.foldl (fun scan path =>
          call.scanReady scan path (s.edge.manifests.read path).join) scan').manifests =
        (paths.foldl (fun scan path => ApplyCall.scanReady ⟨"", 0⟩ scan path
          (s.edge.manifests.read path).join) scan).manifests := by
    intro paths
    induction paths with
    | nil => exact fun _ _ hmanifests _ => hmanifests
    | cons path paths ih =>
      intro scan scan' hmanifests hconflicted
      obtain ⟨h, h'⟩ := @scanReady_alike ⟨"", 0⟩ call scan scan' hmanifests hconflicted path
        (s.edge.manifests.read path).join
      exact ih _ _ h h'
  exact hall _ _ _ rfl rfl

end ApplyCall

/-! ## Pending -/

namespace TransferFiles
variable {s s' : TransferFiles} {name : String} {applied : Ack × ChunkManifest}

theorem joinedAck_eq_some :
    s.joinedAck name = some applied ↔ name = transactionName applied.1.chunkId ∧
      ∃ content, s.edge.acks.read (ackName applied.1.chunkId) = some content ∧
        agreed s.listed (ackName applied.1.chunkId) content = some applied := by
  have hfrom : ∀ file joined, ((s.edge.acks.read file).bind fun content =>
      (agreed s.listed file content).filter fun joined =>
        transactionName joined.1.chunkId = name) = some joined →
      name = transactionName joined.1.chunkId ∧
        ∃ content, s.edge.acks.read (ackName joined.1.chunkId) = some content ∧
          agreed s.listed (ackName joined.1.chunkId) content = some joined := by
    intro file joined h
    obtain ⟨content, hread, hfilter⟩ := Option.bind_eq_some_iff.mp h
    obtain ⟨hagreed, hname⟩ := Option.filter_eq_some_iff.mp hfilter
    obtain ⟨-, hfile, -⟩ := agreed_eq_some.mp hagreed
    subst hfile
    exact ⟨(of_decide_eq_true hname).symm, content, hread, hagreed⟩
  constructor
  · intro h
    obtain ⟨file, -, hfile⟩ := List.exists_of_findSome?_eq_some h
    exact hfrom file applied hfile
  · rintro ⟨hname, content, hread, hagreed⟩
    have hsome : (s.joinedAck name).isSome = true := by
      refine List.findSome?_isSome_iff.mpr ⟨ackName applied.1.chunkId, ?_, ?_⟩
      · rw [Folder.mem_names, hread]
        exact Option.some_ne_none _
      · rw [hread, Option.bind_some, hagreed, Option.filter_some,
          if_pos (decide_eq_true hname.symm)]
        rfl
    obtain ⟨joined, hjoined⟩ := Option.isSome_iff_exists.mp hsome
    obtain ⟨file, -, hfile⟩ := List.exists_of_findSome?_eq_some hjoined
    obtain ⟨hname', content', hread', hagreed'⟩ := hfrom file joined hfile
    have hid : joined.1.chunkId = applied.1.chunkId :=
      transactionName_inj.mp (hname'.symm.trans hname)
    rw [hid, hread, Option.some.injEq] at hread'
    rw [hid, ← hread', hagreed] at hagreed'
    rw [hjoined, hagreed']

theorem pendingAt_some {content : Option AckTransaction}
    (h : s.edge.applying.read name = some content) : s.pendingAt name = transactionOf content := by
  rw [pendingAt, h]

theorem pendingAt_none (h : s.edge.applying.read name = none) :
    s.pendingAt name = s.joinedAck name := by
  rw [pendingAt, h]

/-- Once the ACKs are consumed, only the transactions are pending. -/
theorem pendingAt_eq_none (hacks : ∀ file, s.edge.acks.read file = none)
    (h : s.edge.applying.read name = none) : s.pendingAt name = none := by
  rw [pendingAt_none h, joinedAck, Folder.names_eq_nil.mpr hacks]
  rfl

theorem mem_pendingNames : name ∈ s.pendingNames ↔ s.pendingAt name ≠ none := by
  rw [pendingNames, mem_sortedTransactions, List.mem_filter, List.mem_append,
    Option.isSome_iff_ne_none]
  refine ⟨And.right, fun h => ⟨?_, h⟩⟩
  cases hread : s.edge.applying.read name with
  | some content =>
    refine .inl (Folder.mem_names.mpr ?_)
    rw [hread]
    exact Option.some_ne_none _
  | none =>
    obtain ⟨applied, happlied⟩ := Option.ne_none_iff_exists'.mp h
    rw [pendingAt_none hread] at happlied
    obtain ⟨rfl, content, hack, hagreed⟩ := joinedAck_eq_some.mp happlied
    refine .inr (List.mem_filterMap.mpr ⟨ackName applied.1.chunkId, ?_, ?_⟩)
    · rw [Folder.mem_names, hack]
      exact Option.some_ne_none _
    · rw [hack, Option.bind_some, hagreed, Option.map_some]

theorem mem_pending : applied ∈ s.pending ↔ ∃ name, s.pendingAt name = some applied := by
  rw [pending, List.mem_filterMap]
  refine exists_congr fun name => ⟨And.right, fun h => ⟨?_, h⟩⟩
  rw [mem_pendingNames, h]
  exact Option.some_ne_none _

/-- A list of names, in order, that has every transaction. -/
theorem pending_eq {names : List String} (hsorted : names.Pairwise (· ≤ ·)) (hnodup : names.Nodup)
    (hall : ∀ name, s.pendingAt name ≠ none → name ∈ names) :
    s.pending = names.filterMap s.pendingAt := by
  have hnames : names.filter (fun name => (s.pendingAt name).isSome) = s.pendingNames := by
    refine eq_sortedTransactions (hsorted.sublist List.filter_sublist) (hnodup.filter _)
      fun name => Iff.trans ?_ mem_sortedTransactions
    show _ ↔ name ∈ s.pendingNames
    rw [mem_pendingNames, List.mem_filter, Option.isSome_iff_ne_none]
    exact ⟨And.right, fun h => ⟨hall name h, h⟩⟩
  rw [pending, ← hnames, List.filterMap_filter]
  refine List.filterMap_congr fun name _ => ?_
  cases s.pendingAt name <;> rfl

theorem pending_congr (h : ∀ name, s'.pendingAt name = s.pendingAt name) :
    s'.pending = s.pending := by
  have hnames : s'.pendingNames = s.pendingNames := by
    refine eq_sortedTransactions (pairwise_sortedTransactions _) (nodup_sortedTransactions _)
      fun name => Iff.trans ?_ mem_sortedTransactions
    show name ∈ s'.pendingNames ↔ name ∈ s.pendingNames
    rw [mem_pendingNames, mem_pendingNames, h]
  rw [pending, pending, hnames]
  exact List.filterMap_congr fun name _ => h name

/-! ## Consuming an ACK -/

theorem pendingAt_consumeAck {file : String} {rejected : List Rejected}
    (h : ∀ content joined, s.edge.acks.read file = some content →
      agreed s.listed file content = some joined →
        s.edge.applying.read (transactionName joined.1.chunkId) ≠ none) :
    (s.consumeAck file rejected).pendingAt name = s.pendingAt name := by
  cases hread : s.edge.applying.read name with
  | some content =>
    have hread' : (s.consumeAck file rejected).edge.applying.read name = some content := hread
    rw [pendingAt_some hread, pendingAt_some hread']
  | none =>
    have hread' : (s.consumeAck file rejected).edge.applying.read name = none := hread
    rw [pendingAt_none hread, pendingAt_none hread']
    refine Option.ext fun applied => ?_
    rw [joinedAck_eq_some, joinedAck_eq_some]
    refine and_congr_right fun hname => exists_congr fun content => ?_
    show (s.edge.acks.remove file).read _ = _ ∧ agreed s.listed _ _ = _ ↔ _
    rw [Folder.read_remove]
    refine and_congr_left fun hagreed => ?_
    split
    · rename_i hfile
      refine ⟨fun hnone => (by cases hnone), fun hack => ?_⟩
      subst hfile
      exact absurd (hname ▸ hread) (h content applied hack hagreed)
    · exact Iff.rfl

theorem pendingAt_writeTransaction {ack : Ack} {manifest : ChunkManifest} {content : Option Ack}
    (hnew : s.edge.applying.read (transactionName ack.chunkId) = none)
    (hack : s.edge.acks.read (ackName ack.chunkId) = some content)
    (hagreed : agreed s.listed (ackName ack.chunkId) content = some (ack, manifest))
    (acceptedAt : Int) :
    (s.writeTransaction (transactionName ack.chunkId) ⟨ack, manifest, acceptedAt⟩).pendingAt name =
      s.pendingAt name := by
  have hread : (s.writeTransaction (transactionName ack.chunkId)
      ⟨ack, manifest, acceptedAt⟩).edge.applying.read name =
        if transactionName ack.chunkId = name then some (some ⟨ack, manifest, acceptedAt⟩)
        else s.edge.applying.read name := Folder.read_write _ _ _ _
  by_cases hname : transactionName ack.chunkId = name
  · subst hname
    rw [if_pos rfl] at hread
    rw [pendingAt_some hread, pendingAt_none hnew, transactionOf, Option.bind_some,
      if_pos (agreed_eq_some.mp hagreed).2.2.2]
    exact (joinedAck_eq_some.mpr ⟨rfl, content, hack, hagreed⟩).symm
  · rw [if_neg hname] at hread
    cases hold : s.edge.applying.read name with
    | some content =>
      rw [hold] at hread
      rw [pendingAt_some hold, pendingAt_some hread]
    | none =>
      rw [hold] at hread
      rw [pendingAt_none hold, pendingAt_none hread]
      rfl

/-! ## Entries -/

theorem mem_entryIds {eventId : EventId}
    (hm : eventId ∈ entryIds applied) :
    ∃ kind, eventId = .ofAck applied.2.chunkId (utcText applied.1.durableAt) kind := by
  rcases List.mem_pair.mp hm with rfl | rfl
  · exact ⟨_, rfl⟩
  · exact ⟨_, rfl⟩

theorem mem_ledgerIds {eventId : EventId} :
    eventId ∈ s.ledgerIds ↔ ∃ utcDate ledger, s.edge.ledger.read utcDate = some ledger ∧
      ∃ event ∈ ledger.events, event.eventId = eventId := by
  rw [ledgerIds, List.mem_flatMap]
  refine exists_congr fun utcDate => ?_
  rw [Folder.mem_names]
  cases s.edge.ledger.read utcDate with
  | none => simp
  | some ledger => simp

theorem mem_ledgerIds_write {utcDate : Int} {added : List TransferEvent} {ledger : Ledger}
    (hledger : ledger.events = ((s.edge.ledger.read utcDate).getD {}).events ++ added)
    (hwrite : s'.edge.ledger = s.edge.ledger.write utcDate ledger) {eventId : EventId} :
    eventId ∈ s'.ledgerIds ↔ eventId ∈ s.ledgerIds ∨
      eventId ∈ added.map TransferEvent.eventId := by
  rw [mem_ledgerIds, mem_ledgerIds, hwrite, List.mem_map]
  constructor
  · rintro ⟨day, found, hread, event, hevent, heq⟩
    rw [Folder.read_write] at hread
    split at hread
    · rename_i hday
      subst hday
      cases hread
      rw [hledger, List.mem_append] at hevent
      rcases hevent with hevent | hevent
      · cases hold : s.edge.ledger.read utcDate with
        | none =>
          rw [hold] at hevent
          cases hevent
        | some old =>
          rw [hold] at hevent
          exact .inl ⟨utcDate, old, hold, event, hevent, heq⟩
      · exact .inr ⟨event, hevent, heq⟩
    · exact .inl ⟨day, found, hread, event, hevent, heq⟩
  · rintro (⟨day, found, hread, event, hevent, heq⟩ | ⟨event, hevent, heq⟩)
    · by_cases hday : utcDate = day
      · subst hday
        refine ⟨utcDate, ledger, Folder.read_write_self _ _ _, event, ?_, heq⟩
        rw [hledger, hread]
        exact List.mem_append_left _ hevent
      · refine ⟨day, found, ?_, event, hevent, heq⟩
        rw [Folder.read_write, if_neg hday, hread]
    · refine ⟨utcDate, ledger, Folder.read_write_self _ _ _, event, ?_, heq⟩
      rw [hledger]
      exact List.mem_append_right _ hevent

end TransferFiles

theorem Ledger.events_append {ledger : Ledger} (h : ledger.torn = false)
    (batch : List TransferEvent) : (ledger.append batch).events = ledger.events ++ batch := by
  unfold Ledger.append
  split
  · rename_i hempty
    rw [List.isEmpty_iff.mp hempty, List.append_nil]
  · rw [h]
    rfl

theorem Ledger.events_appendFailing {ledger : Ledger} (h : ledger.torn = false)
    (batch : List TransferEvent) (kept : Nat) (broken : Bool) :
    (ledger.appendFailing batch kept broken).events = ledger.events ++ batch.take kept :=
  Ledger.events_append h _

end MiryFormal
