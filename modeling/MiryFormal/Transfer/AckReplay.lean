import Mathlib.Data.List.TakeWhile
import MiryFormal.Transfer.AckLoop
import MiryFormal.Transfer.Republication
import MiryFormal.Transfer.Tombstones

/-!
# ACKs that come again

A further ACK of a chunk whose manifest has left `ready` is compared with its tombstone, which
`_acked_manifest` looks up by the id of the chunk. The tombstone has the name of the manifest
file, and that of a gap artifact is another one.
-/

namespace MiryFormal

set_option autoImplicit false

open Program TransferOp TransferFiles

namespace TransferFiles

/-- Another ACK is uploaded. -/
def receive (s : TransferFiles) (ack : Ack) : TransferFiles :=
  { s with edge.acks := s.edge.acks.write (ackName ack.chunkId) (some ack) }

/-- The ACK of the chunk was applied: nothing else takes its manifest out of `ready`. -/
def Applied (s : TransferFiles) (manifest : ChunkManifest) : Prop :=
  manifest ∈ s.published ∧ s.edge.manifests.read manifest.manifestPath = none

end TransferFiles

namespace ApplyCall
variable (call : ApplyCall)

/-- The call up to an ACK file. -/
def applyUntil (name : String) : TransferProgram ApplyProgress := do
  let ackPaths ← io listAcks
  let transactionPaths ← io listTransactions
  let scan ← call.readyManifests
  (ackPaths.takeWhile (· ≠ name)).foldlM call.acceptAck
    { manifests := scan.manifests
      transactionPaths
      events := scan.events
      result.seen := ackPaths.length
      result.manifestErrors := scan.errors }

/-- What the call does after an ACK file that leaves it `progress`. -/
def applyFrom (names : List String) (progress : ApplyProgress) :
    TransferProgram AckApplyResult := do
  let progress ← names.foldlM call.acceptAck progress
  let progress ← (sortedTransactions progress.transactionPaths).foldlM call.applyTransaction
    progress
  call.finishCall progress

/-- When the call comes to an ACK file, it leaves `after` of the progress and the files. -/
def Treats (sha256 : Bytes → String) (s : TransferFiles) (name : String)
    (after : ApplyProgress → TransferFiles → ApplyProgress → TransferFiles → Prop) : Prop :=
  ∃ progress s₁ progress' s₂, execAlone sha256 (call.applyUntil name) s = (.ok progress, s₁) ∧
    execAlone sha256 (call.acceptAck progress name) s₁ = (.ok progress', s₂) ∧
      after progress s₁ progress' s₂

/-- Counted as replayed, the file consumed and nothing else done. -/
def Replays (sha256 : Bytes → String) (s : TransferFiles) (ack : Ack) : Prop :=
  call.Treats sha256 s (ackName ack.chunkId) fun progress s₁ progress' s₂ =>
    progress'.result = { progress.result with replayed := progress.result.replayed + 1 } ∧
      s₂ = s₁.consumeAck (ackName ack.chunkId) s₁.edge.rejected

/-- Counted as a hash mismatch and quarantined as one. -/
def Mismatches (sha256 : Bytes → String) (s : TransferFiles) (ack : Ack) : Prop :=
  call.Treats sha256 s (ackName ack.chunkId) fun progress s₁ progress' s₂ =>
    progress'.result =
        { progress.result with hashMismatches := progress.result.hashMismatches + 1 } ∧
      s₂ = s₁.consumeAck (ackName ack.chunkId)
        (s₁.edge.rejected ++ [⟨ackName ack.chunkId, "hash-mismatch"⟩])

/-- Counted as unknown and quarantined. -/
def Unknown (sha256 : Bytes → String) (s : TransferFiles) (ack : Ack) : Prop :=
  call.Treats sha256 s (ackName ack.chunkId) fun progress s₁ progress' s₂ =>
    progress'.result = { progress.result with unknown := progress.result.unknown + 1 } ∧
      s₂ = s₁.consumeAck (ackName ack.chunkId)
        (s₁.edge.rejected ++ [⟨ackName ack.chunkId, "unknown"⟩])

end ApplyCall

/-! ## The name of a tombstone -/

section Names
variable {N : Naming} {sha256 : Bytes → String} {manifest : ChunkManifest}

theorem manifestPath_name_parquet (hfits : N.Fits sha256 manifest)
    (htype : manifest.contentType = .parquet) :
    manifest.manifestPath.name = manifest.chunkId ++ ".manifest.json" := by
  show RelPath.manifestName manifest.dataPath.name = _
  rw [hfits.fileName, htype]
  exact RelPath.manifestName_parquet manifest.chunkId_ne

theorem manifestPath_name_gapJson (hfits : N.Fits sha256 manifest)
    (htype : manifest.contentType = .gapJson) :
    manifest.manifestPath.name = manifest.chunkId ++ ".gap.manifest.json" := by
  show RelPath.manifestName manifest.dataPath.name = _
  rw [hfits.fileName, htype]
  exact RelPath.manifestName_gapJson manifest.chunkId

/-- The lookup by an id finds the tombstone of a Parquet chunk of that id only. -/
theorem of_manifestPath_name (hfits : N.Fits sha256 manifest) {chunkId : String}
    (hproper : ∀ other, chunkId ≠ other ++ ".gap")
    (hname : manifest.manifestPath.name = chunkId ++ ".manifest.json") :
    manifest.contentType = .parquet ∧ manifest.chunkId = chunkId := by
  cases htype : manifest.contentType with
  | parquet =>
    rw [manifestPath_name_parquet hfits htype] at hname
    exact ⟨rfl, (String.append_left_inj _).mp hname⟩
  | gapJson =>
    rw [manifestPath_name_gapJson hfits htype,
      show ".gap.manifest.json" = ".gap" ++ ".manifest.json" from rfl, ← String.append_assoc] at hname
    exact absurd ((String.append_left_inj _).mp hname).symm (hproper manifest.chunkId)

end Names

/-! ## What the lookup finds -/

namespace ApplyCall
variable {N : Naming} {sha256 : Bytes → String} {call : ApplyCall} {s s' : TransferFiles}

/-- The dates that `_acked_manifest` looks at. -/
def lookupDates (s : TransferFiles) (chunkId : String) : List Int :=
  (s.edge.acked.names.filter fun tombstone =>
    (ofLex tombstone).2 = chunkId ++ ".manifest.json").map fun tombstone => (ofLex tombstone).1

theorem execAlone_ackedManifest (chunkId : String) (events : List TransferEvent) :
    execAlone sha256 (call.ackedManifest chunkId events) s =
      execAlone sha256 (call.ackedManifestIn chunkId (chunkId ++ ".manifest.json")
        (lookupDates s chunkId) none 0 events) s := by
  rw [ackedManifest, execAlone_bind (execAlone_io rfl)]
  rfl

theorem mem_lookup (hs : s.Provenance N sha256) (ht : s.Tombstoned) {chunkId : String}
    (hproper : ∀ other, chunkId ≠ other ++ ".gap") {key : Int ×ₗ String}
    (hkey : key ∈ s.edge.acked.names) (hname : (ofLex key).2 = chunkId ++ ".manifest.json") :
    ∃ manifest ∈ s.published, key = manifest.tombstone ∧ manifest.contentType = .parquet ∧
      manifest.chunkId = chunkId := by
  obtain ⟨content, hread⟩ := Option.ne_none_iff_exists'.mp (Folder.mem_names.mp hkey)
  obtain ⟨manifest, hm, -, rfl⟩ := ht.acked _ _ hread
  exact ⟨manifest, hm, rfl, of_manifestPath_name (hs.fits manifest hm) hproper hname⟩

theorem lookupDates_gapJson (hs : s.Provenance N sha256) (ht : s.Tombstoned)
    {manifest : ChunkManifest} (hm : manifest ∈ s.published)
    (htype : manifest.contentType = .gapJson) : lookupDates s manifest.chunkId = [] := by
  rw [lookupDates, List.map_eq_nil_iff, List.filter_eq_nil_iff]
  intro key hkey hname
  have hfits := hs.fits manifest hm
  obtain ⟨other, hother, -, hparquet, hid⟩ :=
    mem_lookup hs ht hfits.proper hkey (of_decide_eq_true hname)
  rw [(hs.fits other hother).contentType, hid, ← hfits.contentType, htype] at hparquet
  cases hparquet

theorem lookupDates_parquet (hs : s.Provenance N sha256) (ht : s.Tombstoned)
    {manifest : ChunkManifest} (hm : manifest ∈ s.published)
    (htype : manifest.contentType = .parquet)
    (hheld : s.edge.acked.read manifest.tombstone ≠ none) :
    lookupDates s manifest.chunkId = [manifest.utcDate] := by
  have hfits := hs.fits manifest hm
  have hname : (ofLex manifest.tombstone).2 = manifest.chunkId ++ ".manifest.json" :=
    manifestPath_name_parquet hfits htype
  have hfilter : (s.edge.acked.names.filter fun tombstone =>
      (ofLex tombstone).2 = manifest.chunkId ++ ".manifest.json") = [manifest.tombstone] := by
    refine List.perm_singleton.mp ((List.perm_ext_iff_of_nodup
      (s.edge.acked.names_nodup.filter _) (List.nodup_singleton _)).mpr fun key => ?_)
    rw [List.mem_filter, List.mem_singleton, decide_eq_true_iff]
    constructor
    · rintro ⟨hkey, hlookup⟩
      obtain ⟨other, hother, rfl, hparquet, hid⟩ := mem_lookup hs ht hfits.proper hkey hlookup
      have hpath : other.manifestPath = manifest.manifestPath := by
        rw [(hs.fits other hother).manifestPath, hid, hfits.manifestPath]
      rw [ChunkManifest.tombstone, (hs.fits other hother).utcDate_eq hfits hpath, hpath,
        ChunkManifest.tombstone]
    · rintro rfl
      exact ⟨Folder.mem_names.mpr hheld, hname⟩
  rw [lookupDates, hfilter]
  rfl

theorem execAlone_ackedManifest_gapJson (hs : s.Provenance N sha256) (ht : s.Tombstoned)
    {manifest : ChunkManifest} (hm : manifest ∈ s.published)
    (htype : manifest.contentType = .gapJson) (hacked : s'.edge.acked = s.edge.acked)
    (events : List TransferEvent) :
    execAlone sha256 (call.ackedManifest manifest.chunkId events) s' =
      (.ok (none, 0, events), s') := by
  have hdates : lookupDates s' manifest.chunkId = [] := by
    rw [← lookupDates_gapJson hs ht hm htype, lookupDates, lookupDates, hacked]
  rw [execAlone_ackedManifest, hdates]
  rfl

theorem execAlone_ackedManifest_parquet (hs : s.Provenance N sha256) (ht : s.Tombstoned)
    {manifest : ChunkManifest} (hm : manifest ∈ s.published)
    (htype : manifest.contentType = .parquet)
    (hheld : s.edge.acked.read manifest.tombstone ≠ none) (hacked : s'.edge.acked = s.edge.acked)
    (events : List TransferEvent) :
    ∃ found : ChunkManifest, found.sha256 = manifest.sha256 ∧
      execAlone sha256 (call.ackedManifest manifest.chunkId events) s' =
        (.ok (some found, 0, events), s') := by
  have hfits := hs.fits manifest hm
  have hname := manifestPath_name_parquet hfits htype
  have hdates : lookupDates s' manifest.chunkId = [manifest.utcDate] := by
    rw [← lookupDates_parquet hs ht hm htype hheld, lookupDates, lookupDates, hacked]
  obtain ⟨content, hread⟩ := Option.ne_none_iff_exists'.mp hheld
  obtain ⟨found, hfound, rfl, hkey⟩ := ht.acked _ _ hread
  obtain ⟨hdate, hfoundName⟩ := Prod.ext_iff.mp (toLex.injective hkey)
  have hfoundFits := hs.fits found hfound
  have hid : found.chunkId = manifest.chunkId :=
    (of_manifestPath_name hfoundFits hfits.proper (hfoundName.symm.trans hname)).2
  refine ⟨found, by rw [hfoundFits.sha256, hid, hfits.sha256], ?_⟩
  have hlookup : s'.edge.acked.read
      (toLex (manifest.utcDate, manifest.chunkId ++ ".manifest.json")) = some (some found) := by
    rw [hacked, ← hname]
    exact hread
  have hplace : ¬(manifest.utcDate ≠ found.utcDate ∨
      manifest.chunkId ++ ".manifest.json" ≠ found.manifestPath.name) := by
    rw [not_or, not_not, not_not, ← hname]
    exact ⟨hdate, hfoundName⟩
  have hfirst : ¬((none : Option ChunkManifest).isSome ∧ none ≠ some found) := by simp
  rw [execAlone_ackedManifest, hdates, ackedManifestIn]
  have hattempt : execAlone sha256
      (io (readAcked manifest.utcDate (manifest.chunkId ++ ".manifest.json"))).attempt s' =
        (.ok (.ok (some found)), s') := by
    simp only [execAlone, io, Program.attempt, Program.exec, TransferOp.run, hlookup,
      TransferOp.found]
  rw [execAlone_bind hattempt]
  show execAlone sha256 (if _ ∨ _ then _ else if _ then _ else if _ then _ else _) s' = _
  rw [if_neg hplace, if_neg (not_not.mpr hid), if_neg hfirst]
  rfl

/-! ## The ACKs before -/

/-- The ACKs of other chunks leave the tombstones and the ACK of the chunk alone. -/
theorem safe_acceptPrefix {chunkId : String} {names : List String} (hnodup : names.Nodup)
    (hread : ∀ name ∈ names, s.edge.acks.read name ≠ none) (hother : ackName chunkId ∉ names)
    {progress : ApplyProgress} (hget : KeyedDict.get id chunkId progress.manifests = none) :
    AloneSafe sha256 none (fun _ => True) (fun result s' => ∃ progress', result = .ok progress' ∧
      KeyedDict.get id chunkId progress'.manifests = none ∧
        s'.edge.acks.read (ackName chunkId) = s.edge.acks.read (ackName chunkId) ∧
          s'.edge.acked = s.edge.acked) (names.foldlM call.acceptAck progress) s := by
  induction names generalizing progress s with
  | nil => exact ⟨trivial, progress, rfl, hget, rfl, rfl⟩
  | cons name names ih =>
    obtain ⟨content, hcontent⟩ := Option.ne_none_iff_exists'.mp (hread name List.mem_cons_self)
    obtain ⟨hnotmem, hnames⟩ := List.nodup_cons.mp hnodup
    have hpop : ∀ removed, KeyedDict.get id chunkId
        (KeyedDict.pop id removed progress.manifests) = none := by
      intro removed
      rw [KeyedDict.get_pop, hget, ite_self]
    have hne : name ≠ ackName chunkId := fun h => hother (h ▸ List.mem_cons_self)
    have hconsumed : ∀ rest ≠ name, ∀ files : TransferFiles, ∀ rejected,
        (files.consumeAck name rejected).edge.acks.read rest = files.edge.acks.read rest := by
      intro rest hrest files rejected
      show (files.edge.acks.remove name).read rest = _
      rw [Folder.read_remove, if_neg hrest.symm]
    rw [List.foldlM_cons]
    have hstep : AloneSafe sha256 none (fun _ => True) (fun result s' => ∃ progress',
        result = .ok progress' ∧ KeyedDict.get id chunkId progress'.manifests = none ∧
          (∀ rest ≠ name, s'.edge.acks.read rest = s.edge.acks.read rest) ∧
            s'.edge.acked = s.edge.acked) (call.acceptAck progress name) s := by
      refine safe_acceptAck hcontent trivial (fun _ _ _ _ => trivial) fun progress' s' hstep => ?_
      refine ⟨trivial, progress', rfl, ?_⟩
      cases hstep with
      | refused rejected hagreed hmanifests hpaths =>
        exact ⟨by rw [hmanifests, hget], fun rest hrest => hconsumed rest hrest s _, rfl⟩
      | known rejected hagreed hknown hmanifests hpaths =>
        refine ⟨?_, fun rest hrest => hconsumed rest hrest s _, rfl⟩
        rcases hmanifests with h | h
        · rw [h, hget]
        · rw [h, hpop]
      | joined hagreed hnew hmanifests hpaths =>
        exact ⟨by rw [hmanifests, hpop], fun rest hrest => hconsumed rest hrest _ _, rfl⟩
    refine Safe.bind hstep ?_ fun _ _ h => nomatch h
    rintro progress₁ s₁ ⟨_, hprogress, hget₁, hacks, hacked⟩
    cases hprogress
    have hread₁ : ∀ rest ∈ names, s₁.edge.acks.read rest ≠ none := by
      intro rest hrest
      rw [hacks rest fun h => hnotmem (h ▸ hrest)]
      exact hread rest (List.mem_cons_of_mem _ hrest)
    refine (ih hnames hread₁ (fun h => hother (List.mem_cons_of_mem _ h)) hget₁).mono
      (fun _ h => h) ?_
    rintro result s₂ ⟨progress₂, hresult, hget₂, hacks₂, hacked₂⟩
    exact ⟨progress₂, hresult, hget₂, hacks₂.trans (hacks _ hne.symm), hacked₂.trans hacked⟩

theorem execAlone_readyManifests :
    execAlone sha256 call.readyManifests s = (.ok (call.scanOf s), s) := by
  obtain ⟨hresult, hfiles⟩ :=
    (@safe_readyManifests call sha256 none (fun _ => True) s trivial).execAlone
  exact Prod.ext hresult hfiles

/-- A call that lists an ACK file comes to it, treats it and goes on with the files after it. -/
theorem applyAcks_comes {s₁ s₂ : TransferFiles} {name : String}
    {progress progress' : ApplyProgress} (hm : name ∈ s.edge.acks.names)
    (huntil : execAlone sha256 (call.applyUntil name) s = (.ok progress, s₁))
    (haccept : execAlone sha256 (call.acceptAck progress name) s₁ = (.ok progress', s₂)) :
    execAlone sha256 call.applyAcks s =
      execAlone sha256
        (call.applyFrom (s.edge.acks.names.dropWhile (· ≠ name)).tail progress') s₂ := by
  have hsplit : s.edge.acks.names.takeWhile (· ≠ name) ++
      name :: (s.edge.acks.names.dropWhile (· ≠ name)).tail = s.edge.acks.names := by
    generalize s.edge.acks.names = names at hm
    induction names with
    | nil => cases hm
    | cons other names ih =>
      by_cases heq : other = name
      · rw [List.takeWhile_cons_of_neg (by simpa using heq),
          List.dropWhile_cons_of_neg (by simpa using heq), heq]
        rfl
      · rw [List.takeWhile_cons_of_pos (by simpa using heq),
          List.dropWhile_cons_of_pos (by simpa using heq), List.cons_append,
          ih (List.mem_of_ne_of_mem (Ne.symm heq) hm)]
  have hloop : ∀ start, s.edge.acks.names.foldlM call.acceptAck start =
      (s.edge.acks.names.takeWhile (· ≠ name)).foldlM call.acceptAck start >>= fun progress =>
        call.acceptAck progress name >>=
          (s.edge.acks.names.dropWhile (· ≠ name)).tail.foldlM call.acceptAck := by
    intro start
    conv_lhs => rw [← hsplit, List.foldlM_append]
    rfl
  rw [applyUntil, execAlone_bind (execAlone_io rfl), execAlone_bind (execAlone_io rfl),
    execAlone_bind execAlone_readyManifests] at huntil
  rw [applyAcks, execAlone_bind (execAlone_io rfl), execAlone_bind (execAlone_io rfl), if_neg,
    execAlone_bind execAlone_readyManifests, hloop, bind_assoc, execAlone_bind huntil, bind_assoc,
    execAlone_bind haccept]
  · rfl
  · rintro ⟨hempty, -⟩
    rw [List.isEmpty_iff.mp hempty] at hm
    cases hm
/-- The call comes to the ACK of a chunk that it does not list. -/
theorem applyUntil_ok {chunkId : String}
    (hget : KeyedDict.get id chunkId (call.scanOf s).manifests = none) :
    ∃ progress s₁, execAlone sha256 (call.applyUntil (ackName chunkId)) s = (.ok progress, s₁) ∧
      KeyedDict.get id chunkId progress.manifests = none ∧
        s₁.edge.acks.read (ackName chunkId) = s.edge.acks.read (ackName chunkId) ∧
          s₁.edge.acked = s.edge.acked := by
  have hsublist := (s.edge.acks.names).takeWhile_sublist (· ≠ ackName chunkId)
  let progress : ApplyProgress :=
    { manifests := (call.scanOf s).manifests
      transactionPaths := s.edge.applying.names
      events := (call.scanOf s).events
      result.seen := s.edge.acks.names.length
      result.manifestErrors := (call.scanOf s).errors }
  have hprefix := (@safe_acceptPrefix sha256 call s chunkId
    (s.edge.acks.names.takeWhile (· ≠ ackName chunkId)) (s.edge.acks.names_nodup.sublist hsublist)
    (fun name hm => Folder.mem_names.mp (hsublist.subset hm))
    (fun hm => by simpa using List.mem_takeWhile_imp hm) progress hget).execAlone
  rw [applyUntil, execAlone_bind (execAlone_io rfl), execAlone_bind (execAlone_io rfl),
    execAlone_bind execAlone_readyManifests]
  obtain ⟨progress, hresult, hrest⟩ := hprefix
  exact ⟨progress, _, Prod.ext hresult rfl, hrest⟩

/-! ## The ACK itself -/

section Unlisted
variable {ack : Ack} {progress : ApplyProgress}

theorem execAlone_acceptAck (hread : s.edge.acks.read (ackName ack.chunkId) = some (some ack))
    (hget : KeyedDict.get id ack.chunkId progress.manifests = none) :
    execAlone sha256 (call.acceptAck progress (ackName ack.chunkId)) s =
      execAlone sha256 (call.acceptUnlisted progress (ackName ack.chunkId) ack) s := by
  have hattempt : execAlone sha256 (io (readAck (ackName ack.chunkId))).attempt s =
      (.ok (.ok (some ack)), s) := by
    simp only [execAlone, io, Program.attempt, Program.exec, TransferOp.run, hread,
      TransferOp.found]
  rw [acceptAck, execAlone_bind hattempt]
  show execAlone sha256 (if ackName ack.chunkId ≠ ackName ack.chunkId then _ else _) s = _
  rw [if_neg (not_not.mpr rfl), hget]

theorem execAlone_reject {content : Option Ack} {name reason : String}
    (hread : s.edge.acks.read name = some content) {count : AckApplyResult → AckApplyResult}
    {event : TransferEvent} :
    execAlone sha256 (progress.reject name reason count event) s =
      (.ok { progress with
        events := progress.events ++ [event]
        result := count progress.result },
      s.consumeAck name (s.edge.rejected ++ [⟨name, reason⟩])) := by
  have hrun : TransferOp.run sha256 (quarantineAck name reason) s =
      (.ok (), s.consumeAck name (s.edge.rejected ++ [⟨name, reason⟩])) := by
    rw [TransferOp.run, hread]
    rfl
  rw [ApplyProgress.reject, execAlone_bind (execAlone_io hrun)]
  rfl

theorem treats_parquet (hs : s.Provenance N sha256) (ht : s.Tombstoned) {manifest : ChunkManifest}
    (hm : manifest ∈ s.published) (htype : manifest.contentType = .parquet)
    (hheld : s.edge.acked.read manifest.tombstone ≠ none)
    (hlist : KeyedDict.get id manifest.chunkId (call.scanOf (s.receive ack)).manifests = none)
    (hid : ack.chunkId = manifest.chunkId) :
    (ack.sha256 = manifest.sha256 → call.Replays sha256 (s.receive ack) ack) ∧
      (ack.sha256 ≠ manifest.sha256 → call.Mismatches sha256 (s.receive ack) ack) := by
  rw [← hid] at hlist
  obtain ⟨progress, s₁, huntil, hget, hacks, hacked⟩ := @applyUntil_ok sha256 _ _ _ hlist
  have hread : s₁.edge.acks.read (ackName ack.chunkId) = some (some ack) :=
    hacks.trans (Folder.read_write_self _ _ _)
  obtain ⟨found, hsha, hknown⟩ := @execAlone_ackedManifest_parquet _ _ call _ s₁ hs ht _ hm htype
    hheld hacked progress.events
  rw [← hid] at hknown
  have hexec := @execAlone_acceptAck sha256 call _ _ _ hread hget
  rw [acceptUnlisted, execAlone_bind hknown] at hexec
  change _ = execAlone sha256 (if ack.sha256 ≠ found.sha256 then _ else _) s₁ at hexec
  constructor
  · intro hequal
    rw [if_neg (not_not.mpr (hequal.trans hsha.symm)),
      execAlone_bind (execAlone_io (run_unlinkAck hread))] at hexec
    exact ⟨progress, s₁, _, _, huntil, hexec, rfl, rfl⟩
  · intro hdiffer
    rw [if_pos (fun h => hdiffer (h.trans hsha)), rejectMismatch, execAlone_reject hread] at hexec
    exact ⟨progress, s₁, _, _, huntil, hexec, rfl, rfl⟩

theorem unknown_gapJson (hs : s.Provenance N sha256) (ht : s.Tombstoned) {manifest : ChunkManifest}
    (hm : manifest ∈ s.published) (htype : manifest.contentType = .gapJson)
    (hlist : KeyedDict.get id manifest.chunkId (call.scanOf (s.receive ack)).manifests = none)
    (hid : ack.chunkId = manifest.chunkId) : call.Unknown sha256 (s.receive ack) ack := by
  rw [← hid] at hlist
  obtain ⟨progress, s₁, huntil, hget, hacks, hacked⟩ := @applyUntil_ok sha256 _ _ _ hlist
  have hread : s₁.edge.acks.read (ackName ack.chunkId) = some (some ack) :=
    hacks.trans (Folder.read_write_self _ _ _)
  have hknown := @execAlone_ackedManifest_gapJson _ _ call _ s₁ hs ht _ hm htype hacked
    progress.events
  rw [← hid] at hknown
  have hexec := @execAlone_acceptAck sha256 call _ _ _ hread hget
  rw [acceptUnlisted, execAlone_bind hknown] at hexec
  exact ⟨progress, s₁, _, _, huntil, hexec.trans (execAlone_reject hread), rfl, rfl⟩

theorem Unknown.not_replays (h : call.Unknown sha256 s ack) : ¬ call.Replays sha256 s ack := by
  obtain ⟨progress, s₁, progress', s₂, huntil, haccept, hresult, -⟩ := h
  rintro ⟨other, s₃, other', s₄, huntil', haccept', hresult', -⟩
  cases huntil.symm.trans huntil'
  cases haccept.symm.trans haccept'
  have hcount := congrArg AckApplyResult.replayed (hresult.symm.trans hresult')
  exact absurd hcount (Nat.lt_succ_self _).ne

end Unlisted

end ApplyCall

/-! ## Exact replay -/

section Applied
variable {N : Naming} {sha256 : Bytes → String} {s : TransferFiles} {manifest : ChunkManifest}

/-- Until its day is sealed, an applied chunk has a tombstone. -/
theorem TransferFiles.Applied.held (h : s.Applied manifest) (ht : s.Tombstoned)
    (hsealed : ¬ s.IsSealed manifest.utcDate) : s.edge.acked.read manifest.tombstone ≠ none := by
  rcases ht.held manifest h.1 with hready | hacked | hday
  · exact absurd h.2 hready
  · exact hacked
  · exact absurd hday hsealed

theorem TransferFiles.Applied.unlisted (h : s.Applied manifest) (hs : s.Provenance N sha256)
    (call : ApplyCall) (ack : Ack) :
    KeyedDict.get id manifest.chunkId (call.scanOf (s.receive ack)).manifests = none := by
  by_contra hne
  obtain ⟨listed, hget⟩ := Option.ne_none_iff_exists'.mp hne
  obtain ⟨hid, hread⟩ := call.scanOf_listed _ _ hget
  have hpublished : listed ∈ s.published := (hs.manifests _ _ hread listed rfl).1
  have hpath : listed.manifestPath = manifest.manifestPath := by
    rw [(hs.fits listed hpublished).manifestPath, hid, (hs.fits manifest h.1).manifestPath]
  rw [hpath] at hread
  exact Option.some_ne_none _ (hread.symm.trans h.2)

end Applied

/-- In every run: once the ACK of a chunk is applied and while its day is not sealed, a further
ACK is replayed, or mismatched, as its hash says, if and only if the chunk is a Parquet chunk. -/
theorem exactReplay_iff {N : Naming} {sha256 : Bytes → String} {encode : GapEvent → Bytes}
    (hsha : N.CollisionFree sha256) {crew : TransferCrew}
    (hreach : Crew.Reaches (Sem sha256) (N.May sha256 encode) ⟨{}, []⟩ crew)
    {manifest : ChunkManifest} (happlied : crew.store.Applied manifest)
    (hsealed : ¬ crew.store.IsSealed manifest.utcDate) :
    (∀ (call : ApplyCall) (ack : Ack), ack.chunkId = manifest.chunkId →
      (ack.sha256 = manifest.sha256 → call.Replays sha256 (crew.store.receive ack) ack) ∧
        (ack.sha256 ≠ manifest.sha256 → call.Mismatches sha256 (crew.store.receive ack) ack)) ↔
      manifest.contentType = .parquet := by
  obtain ⟨hs, ht⟩ := TransferCrew.tombstoned hsha hreach
  constructor
  · intro hall
    cases htype : manifest.contentType with
    | parquet => rfl
    | gapJson =>
      let call : ApplyCall := ⟨"", 0⟩
      let ack : Ack := ⟨manifest.chunkId, manifest.sha256, 0⟩
      have hunknown := @ApplyCall.unknown_gapJson _ _ _ _ ack hs ht _ happlied.1 htype
        (happlied.unlisted hs call ack) rfl
      exact absurd ((hall call ack rfl).1 rfl) hunknown.not_replays
  · exact fun htype call ack hid => ApplyCall.treats_parquet hs ht happlied.1 htype
      (happlied.held ht hsealed) (happlied.unlisted hs call ack) hid

theorem exactReplay_iff_sample :
    ∃ manifest ∈ Sample.done.published, ∀ (call : ApplyCall) (ack : Ack),
      ack.chunkId = manifest.chunkId → ack.sha256 = manifest.sha256 →
        call.Replays Sample.digest (Sample.done.receive ack) ack := by
  obtain ⟨tasks, h⟩ := Sample.reaches_done
  have happlied : ∃ manifest ∈ Sample.done.published,
      Sample.done.edge.manifests.read manifest.manifestPath = none ∧
        Sample.done.edge.sealedDays.read manifest.utcDate = none ∧
          manifest.contentType = .parquet := by decide +kernel
  obtain ⟨manifest, hm, hgone, hopen, htype⟩ := happlied
  refine ⟨manifest, hm, fun call ack hid hequal => ?_⟩
  have hiff := exactReplay_iff Sample.collisionFree h ⟨hm, hgone⟩ (fun hsealed => hsealed hopen)
  exact (hiff.mpr htype call ack hid).1 hequal

/-! A gap artifact whose ACK was applied. -/

namespace Sample

def gapPulled : TransferFiles := runAlone (runPull digest pullCall) opened

def gapDone : TransferFiles := runAlone (do let _ ← applyCall.applyAcks) gapPulled

theorem reaches_gapDone : ∃ tasks, Crew.Reaches (Sem digest)
    (gapNaming.May digest fun _ => content) ⟨{}, []⟩ ⟨gapDone, tasks⟩ := by
  have hstart : Crew.Reaches (Sem digest) (gapNaming.May digest fun _ => content) ⟨{}, []⟩
    ⟨{}, []⟩ := .refl
  obtain ⟨_, h⟩ := reaches_runAlone sem_done (mayPublish openedGap 1 rfl (by decide))
    (meets_true _ _) hstart
  obtain ⟨_, h⟩ := reaches_runAlone sem_done (.pull pullCall) (meets_true _ _) h
  exact reaches_runAlone sem_done (.applyAcks applyCall) (meets_true _ _) h

end Sample

/-- The same ACK once more is unknown, and quarantined. -/
theorem gapReplay_unknown :
    ∃ crew : TransferCrew,
      Crew.Reaches (Sem Sample.digest) (Sample.gapNaming.May Sample.digest fun _ => Sample.content)
        ⟨{}, []⟩ crew ∧
        ∃ manifest, crew.store.Applied manifest ∧ ¬ crew.store.IsSealed manifest.utcDate ∧
          ∃ ack : Ack, ack.chunkId = manifest.chunkId ∧ ack.sha256 = manifest.sha256 ∧
            Sample.applyCall.Unknown Sample.digest (crew.store.receive ack) ack ∧
              ¬ Sample.applyCall.Replays Sample.digest (crew.store.receive ack) ack := by
  obtain ⟨tasks, h⟩ := Sample.reaches_gapDone
  obtain ⟨hs, ht⟩ := TransferCrew.tombstoned Sample.gapCollisionFree h
  have happlied : ∃ manifest ∈ Sample.gapDone.published,
      Sample.gapDone.edge.manifests.read manifest.manifestPath = none ∧
        Sample.gapDone.edge.sealedDays.read manifest.utcDate = none ∧
          manifest.contentType = .gapJson := by decide +kernel
  obtain ⟨manifest, hm, hgone, hopen, htype⟩ := happlied
  let ack : Ack := ⟨manifest.chunkId, manifest.sha256, 1786320300000000⟩
  have happlied : Sample.gapDone.Applied manifest := ⟨hm, hgone⟩
  have hunknown := @ApplyCall.unknown_gapJson _ _ Sample.applyCall _ ack hs ht _ hm htype
    (happlied.unlisted hs Sample.applyCall ack) rfl
  exact ⟨⟨Sample.gapDone, tasks⟩, h, manifest, happlied, fun hsealed => hsealed hopen, ack, rfl, rfl,
    hunknown, hunknown.not_replays⟩

end MiryFormal
