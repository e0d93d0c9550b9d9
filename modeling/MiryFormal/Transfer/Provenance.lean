import MiryFormal.Transfer.Publication
import MiryFormal.Transfer.Pull

/-!
# Where every file comes from

The programs of both sides run together. Each operation they call is one of a few kinds, and
what these kinds keep says of every file where it comes from: every manifest was published,
every byte in the raw tree is the published one, and every ACK speaks of a chunk that the raw
tree holds.
-/

namespace MiryFormal

set_option autoImplicit false

open Program TransferOp

/-- What the ids of the chunks of one edge name. -/
structure Naming where
  collectorId : String
  utcDate : String → Int
  writerGroup : String → WriterGroup
  fileName : String → String
  contentType : String → ContentType
  content : String → Bytes
  /-- Two chunks have two manifest files. -/
  distinct : Function.Injective fun chunkId =>
    (utcDate chunkId, writerGroup chunkId, RelPath.manifestName (fileName chunkId))

theorem WriterGroup.value_injective : Function.Injective WriterGroup.value := by
  intro a b h
  cases a <;> cases b <;> first | rfl | exact absurd h (by decide)

namespace Naming
variable (N : Naming) (sha256 : Bytes → String)

def path (chunkId : String) : RelPath :=
  ⟨chunkFolders (N.utcDate chunkId) (N.writerGroup chunkId), N.fileName chunkId⟩

theorem manifestPath_injective : Function.Injective fun chunkId => (N.path chunkId).manifestPath := by
  intro a b h
  refine N.distinct ?_
  simp only [path, chunkFolders, RelPath.manifestPath, RelPath.mk.injEq, List.cons.injEq,
    PathPart.date.injEq, PathPart.named.injEq, and_true] at h
  obtain ⟨⟨hdate, hgroup⟩, hname⟩ := h
  have hvalue : (N.writerGroup a).value = (N.writerGroup b).value :=
    (String.append_right_inj _).mp hgroup
  simp only [hdate, WriterGroup.value_injective hvalue, hname]

theorem path_injective : Function.Injective N.path := fun _ _ h =>
  N.manifestPath_injective (congrArg RelPath.manifestPath h)

/-- The manifest describes the chunk that its id names. -/
structure Fits (manifest : ChunkManifest) : Prop where
  collectorId : manifest.collectorId = N.collectorId
  utcDate : manifest.utcDate = N.utcDate manifest.chunkId
  writerGroup : manifest.writerGroup = N.writerGroup manifest.chunkId
  dataPath : manifest.dataPath = N.path manifest.chunkId
  sizeBytes : manifest.sizeBytes = (N.content manifest.chunkId).length
  sha256 : manifest.sha256 = sha256 (N.content manifest.chunkId)
  contentType : manifest.contentType = N.contentType manifest.chunkId
  fileName : manifest.dataPath.name = manifest.chunkId ++ manifest.contentType.extension
  proper : ∀ other, manifest.chunkId ≠ other ++ ".gap"

variable {N sha256} {manifest manifest' : ChunkManifest}

theorem Fits.manifestPath (h : N.Fits sha256 manifest) :
    manifest.manifestPath = (N.path manifest.chunkId).manifestPath :=
  congrArg RelPath.manifestPath h.dataPath

/-- Two manifests of one name are of one chunk. -/
theorem Fits.chunkId_eq (h : N.Fits sha256 manifest) (h' : N.Fits sha256 manifest')
    (hpath : manifest.manifestPath = manifest'.manifestPath) :
    manifest.chunkId = manifest'.chunkId :=
  N.manifestPath_injective (h.manifestPath.symm.trans (hpath.trans h'.manifestPath))

theorem Fits.utcDate_eq (h : N.Fits sha256 manifest) (h' : N.Fits sha256 manifest')
    (hpath : manifest.manifestPath = manifest'.manifestPath) :
    manifest.utcDate = manifest'.utcDate := by
  rw [h.utcDate, h'.utcDate, h.chunkId_eq h' hpath]

theorem Fits.asRef_eq (h : N.Fits sha256 manifest) (h' : N.Fits sha256 manifest')
    (hpath : manifest.manifestPath = manifest'.manifestPath) : manifest.asRef = manifest'.asRef := by
  have hid := h.chunkId_eq h' hpath
  obtain ⟨⟨chunkId, dataPath, hash, sizeBytes, contentType, _, _⟩, _⟩ := manifest
  obtain ⟨⟨chunkId', dataPath', hash', sizeBytes', contentType', _, _⟩, _⟩ := manifest'
  cases hid
  have := h.dataPath.trans h'.dataPath.symm
  have := h.sizeBytes.trans h'.sizeBytes.symm
  have := h.sha256.trans h'.sha256.symm
  have := h.contentType.trans h'.contentType.symm
  simp_all

end Naming

namespace TransferFiles
variable (N : Naming) (s : TransferFiles)

/-- The raw tree holds the bytes of the chunk. -/
def InRaw (chunkId : String) : Prop :=
  s.pull.rawData.read (toLex (N.collectorId, N.path chunkId)) = some (N.content chunkId)

/-- The manifest of the chunk lies beside them. -/
def HasLocal (chunkId : String) : Prop :=
  s.pull.rawManifests.read (toLex (N.collectorId, (N.path chunkId).manifestPath)) ≠ none

def IsSealed (utcDate : Int) : Prop := s.edge.sealedDays.read utcDate ≠ none

def Stored (chunkId : String) : Prop :=
  s.edge.data.read (N.path chunkId) = some (N.content chunkId) ∨ s.InRaw N chunkId

/-- The reference is that of a chunk published for the day. -/
def IsRef (utcDate : Int) (chunk : ChunkRef) : Prop :=
  ∃ manifest ∈ s.published, manifest.asRef = chunk ∧ manifest.utcDate = utcDate

/-- The sealed day lists chunks that the edge published for it. -/
def ListsRefs (day : DayManifest) : Prop :=
  day.collectorId = N.collectorId ∧ ∀ chunk ∈ day.chunks, s.IsRef day.utcDate chunk

/-- The ACK is of a published chunk that the raw tree holds. -/
def Backed (ack : Ack) : Prop :=
  ∃ manifest ∈ s.published, manifest.chunkId = ack.chunkId ∧ manifest.sha256 = ack.sha256 ∧
    s.InRaw N ack.chunkId ∧ s.HasLocal N ack.chunkId

/-- A copied manifest, under its own path. -/
def IsCopy (path : RelPath) (content : Option ChunkManifest) : Prop :=
  ∀ manifest ∈ content, manifest ∈ s.copied ∧ path = manifest.manifestPath

/-- The transaction joins an ACK and a manifest of one chunk. -/
structure Joins (transaction : AckTransaction) : Prop where
  published : transaction.manifest ∈ s.published
  chunkId : transaction.ack.chunkId = transaction.manifest.chunkId
  backed : s.Backed N transaction.ack

/-- What never goes away. -/
structure Later (s s' : TransferFiles) : Prop where
  published : s.published ⊆ s'.published
  copied : s.copied ⊆ s'.copied
  stored : ∀ {chunkId}, s.Stored N chunkId → s'.Stored N chunkId
  inRaw : ∀ {chunkId}, s.InRaw N chunkId → s'.InRaw N chunkId
  hasLocal : ∀ {chunkId}, s.HasLocal N chunkId → s'.HasLocal N chunkId
  isSealed : ∀ {utcDate}, s.IsSealed utcDate → s'.IsSealed utcDate

/-- Every file of `s` comes from what `w` has seen. -/
structure Traced (w s : TransferFiles) : Prop where
  data : s.edge.data.All fun path content => ∃ chunkId, path = N.path chunkId ∧
    content = N.content chunkId
  manifests : s.edge.manifests.All fun path content => ∀ manifest ∈ content,
    manifest ∈ w.published ∧ path = manifest.manifestPath
  acked : s.edge.acked.All fun key content => ∀ manifest ∈ content,
    manifest ∈ w.published ∧ (ofLex key).1 = manifest.utcDate
  index : s.edge.dayIndex.All fun utcDate lines => ∀ chunk ∈ lines, w.IsRef utcDate chunk
  sealedDays : s.edge.sealedDays.All fun _ day => w.ListsRefs N day
  acks : s.edge.acks.All fun _ content => ∀ ack ∈ content, w.Backed N ack
  applying : s.edge.applying.All fun _ content => ∀ transaction ∈ content, w.Joins N transaction
  inventory : s.pull.inventory.All fun path content => w.IsCopy path content
  inventorySealed : s.pull.inventorySealed.All fun _ day => w.ListsRefs N day
  mirrorManifests : s.pull.mirrorManifests.All fun path content => w.IsCopy path content
  mirrorSealed : s.pull.mirrorSealed.All fun _ day => w.ListsRefs N day
  mirrorAcks : s.pull.mirrorAcks.All fun _ content => ∀ ack ∈ content, w.Backed N ack
  rawData : s.pull.rawData.All fun key content => ∃ chunkId,
    key = toLex (N.collectorId, N.path chunkId) ∧ content = N.content chunkId
  rawManifests : s.pull.rawManifests.All fun key content => ∃ manifest ∈ w.copied,
    content = some manifest ∧ key = toLex (N.collectorId, manifest.manifestPath)

structure Provenance (sha256 : Bytes → String) : Prop extends Traced N s s where
  fits : ∀ manifest ∈ s.published, N.Fits sha256 manifest
  copies : s.copied ⊆ s.published
  stored : ∀ manifest ∈ s.published, s.Stored N manifest.chunkId

variable {N s} {w s' : TransferFiles} {sha256 : Bytes → String}

/-! ## What survives -/

theorem Later.refl (s : TransferFiles) : Later N s s :=
  ⟨fun _ h => h, fun _ h => h, id, id, id, id⟩

theorem Later.trans {u : TransferFiles} (h : Later N s s') (h' : Later N s' u) : Later N s u :=
  ⟨fun _ hm => h'.published (h.published hm), fun _ hm => h'.copied (h.copied hm),
    fun hs => h'.stored (h.stored hs), fun hr => h'.inRaw (h.inRaw hr),
    fun hl => h'.hasLocal (h.hasLocal hl), fun hd => h'.isSealed (h.isSealed hd)⟩

/-- A step that leaves the chunks, the sealed days and the histories alone. -/
theorem Later.of_same (hdata : s'.edge.data = s.edge.data)
    (hraw : s'.pull.rawData = s.pull.rawData) (hlocal : s'.pull.rawManifests = s.pull.rawManifests)
    (hsealed : s'.edge.sealedDays = s.edge.sealedDays) (hpublished : s'.published = s.published)
    (hcopied : s'.copied = s.copied) : Later N s s' := by
  refine ⟨by rw [hpublished]; exact fun _ h => h, by rw [hcopied]; exact fun _ h => h,
    ?_, ?_, ?_, ?_⟩
  · intro chunkId h
    rwa [Stored, InRaw, hdata, hraw]
  · intro chunkId h
    rwa [InRaw, hraw]
  · intro chunkId h
    rwa [HasLocal, hlocal]
  · intro utcDate h
    rwa [IsSealed, hsealed]

namespace Later
variable (h : Later N s s')
include h

theorem isRef {utcDate : Int} {chunk : ChunkRef} (hchunk : s.IsRef utcDate chunk) :
    s'.IsRef utcDate chunk := by
  obtain ⟨manifest, hm, heq⟩ := hchunk
  exact ⟨manifest, h.published hm, heq⟩

theorem listsRefs {day : DayManifest} (hday : s.ListsRefs N day) : s'.ListsRefs N day :=
  ⟨hday.1, fun chunk hm => h.isRef (hday.2 chunk hm)⟩

theorem backed {ack : Ack} (hack : s.Backed N ack) : s'.Backed N ack := by
  obtain ⟨manifest, hm, hid, hhash, hraw, hlocal⟩ := hack
  exact ⟨manifest, h.published hm, hid, hhash, h.inRaw hraw, h.hasLocal hlocal⟩

theorem isCopy {path : RelPath} {content : Option ChunkManifest} (hcopy : s.IsCopy path content) :
    s'.IsCopy path content :=
  fun manifest hm => ⟨h.copied (hcopy manifest hm).1, (hcopy manifest hm).2⟩

theorem joins {transaction : AckTransaction} (hjoins : s.Joins N transaction) :
    s'.Joins N transaction :=
  ⟨h.published hjoins.published, hjoins.chunkId, h.backed hjoins.backed⟩

theorem traced {files : TransferFiles} (ht : Traced N s files) : Traced N s' files where
  data := ht.data
  manifests := ht.manifests.mono fun _ _ hc manifest hm =>
    ⟨h.published (hc manifest hm).1, (hc manifest hm).2⟩
  acked := ht.acked.mono fun _ _ hc manifest hm =>
    ⟨h.published (hc manifest hm).1, (hc manifest hm).2⟩
  index := ht.index.mono fun _ _ hc chunk hm => h.isRef (hc chunk hm)
  sealedDays := ht.sealedDays.mono fun _ _ => h.listsRefs
  acks := ht.acks.mono fun _ _ hc ack hm => h.backed (hc ack hm)
  applying := ht.applying.mono fun _ _ hc transaction hm => h.joins (hc transaction hm)
  inventory := ht.inventory.mono fun _ _ => h.isCopy
  inventorySealed := ht.inventorySealed.mono fun _ _ => h.listsRefs
  mirrorManifests := ht.mirrorManifests.mono fun _ _ => h.isCopy
  mirrorSealed := ht.mirrorSealed.mono fun _ _ => h.listsRefs
  mirrorAcks := ht.mirrorAcks.mono fun _ _ hc ack hm => h.backed (hc ack hm)
  rawData := ht.rawData
  rawManifests := ht.rawManifests.mono fun _ _ ⟨manifest, hm, hc⟩ => ⟨manifest, h.copied hm, hc⟩

end Later

/-- A step that leaves the chunks and the histories alone, and the files of `ready`. -/
theorem Provenance.of_traced (h : s.Provenance N sha256) (hlater : Later N s s')
    (hpublished : s'.published = s.published) (hcopied : s'.copied = s.copied)
    (ht : Traced N s' s') : s'.Provenance N sha256 where
  toTraced := ht
  fits := by rw [hpublished]; exact h.fits
  copies := by rw [hpublished, hcopied]; exact h.copies
  stored := by
    rw [hpublished]
    exact fun manifest hm => hlater.stored (h.stored manifest hm)

end TransferFiles

/-! ## What the operations may do -/

namespace Naming
open TransferFiles
variable (N : Naming) (sha256 : Bytes → String)

/-- What a program must know before it calls an operation. -/
def Allows (op : TransferOp) (s : TransferFiles) : Prop :=
  match op with
  | .placeData path content => ∃ chunkId, path = N.path chunkId ∧ content = N.content chunkId
  | .writeManifest path manifest =>
      N.Fits sha256 manifest ∧ path = manifest.manifestPath ∧ s.Stored N manifest.chunkId
  | .unlinkData path => ∃ chunkId, path = N.path chunkId ∧ s.InRaw N chunkId
  | .writeTransaction _ transaction => s.Joins N transaction
  | .writeSealed day => s.ListsRefs N day
  | .unlinkManifest path =>
      ∃ manifest ∈ s.published, path = manifest.manifestPath ∧ s.IsSealed manifest.utcDate
  | .unlinkAcked utcDate _ | .unlinkIndex utcDate => s.IsSealed utcDate
  | .moveManifest path utcDate =>
      ∃ manifest ∈ s.published, path = manifest.manifestPath ∧ utcDate = manifest.utcDate
  | .appendIndex utcDate chunk => s.IsRef utcDate chunk
  | .writeMirrorAck _ ack => s.Backed N ack
  | .promote collectorId path _ hash | .replacePartial collectorId path _ hash =>
      ∃ manifest ∈ s.copied, collectorId = manifest.collectorId ∧ path = manifest.dataPath ∧
        hash = manifest.sha256
  | .writeRawManifest collectorId path manifest =>
      manifest ∈ s.copied ∧ collectorId = N.collectorId ∧ path = manifest.manifestPath
  | .writeRawSealed collectorId day =>
      collectorId = N.collectorId ∧ s.ListsRefs N day ∧ ∀ chunk ∈ day.chunks, s.InRaw N chunk.chunkId
  | _ => True

/-- The operations that are always allowed. -/
def Free : TransferOp → Prop
  | .placeData _ _ | .writeManifest _ _ | .unlinkManifest _ | .moveManifest _ _ | .unlinkData _
  | .writeTransaction _ _ | .writeSealed _ | .unlinkAcked _ _ | .appendIndex _ _ | .unlinkIndex _
  | .writeMirrorAck _ _ | .promote _ _ _ _ | .replacePartial _ _ _ _ | .writeRawManifest _ _ _
  | .writeRawSealed _ _ => False
  | _ => True

theorem allows_of_free {op : TransferOp} (h : Free op) (s : TransferFiles) :
    N.Allows sha256 op s := by
  cases op <;> first | exact h.elim | trivial

end Naming

/-! ## What one operation keeps -/

namespace TransferFiles
variable {N : Naming} {sha256 : Bytes → String} {s s' : TransferFiles}

/-- What a step must keep. -/
abbrev Kept (N : Naming) (sha256 : Bytes → String) (s s' : TransferFiles) : Prop :=
  s'.Provenance N sha256 ∧ Later N s s'

/-- A step that leaves the chunks, the sealed days and the histories alone. -/
theorem Kept.of_same (h : s.Provenance N sha256) (hdata : s'.edge.data = s.edge.data)
    (hraw : s'.pull.rawData = s.pull.rawData) (hlocal : s'.pull.rawManifests = s.pull.rawManifests)
    (hsealed : s'.edge.sealedDays = s.edge.sealedDays) (hpublished : s'.published = s.published)
    (hcopied : s'.copied = s.copied) (ht : Traced N s s') : Kept N sha256 s s' :=
  have hlater : Later N s s' := .of_same hdata hraw hlocal hsealed hpublished hcopied
  ⟨h.of_traced hlater hpublished hcopied (hlater.traced ht), hlater⟩

theorem Kept.self (h : s.Provenance N sha256) : Kept N sha256 s s := ⟨h, .refl s⟩

theorem kept_placeData (h : s.Provenance N sha256) {path : RelPath} {content : Bytes}
    (hop : N.Allows sha256 (.placeData path content) s) :
    Kept N sha256 s (run sha256 (.placeData path content) s).2 := by
  obtain ⟨chunkId, rfl, rfl⟩ := hop
  have hlater : Later N s (run sha256 (.placeData (N.path chunkId) (N.content chunkId)) s).2 := by
    refine ⟨fun _ h => h, fun _ h => h, fun {other} hstored => ?_, id, id, id⟩
    rcases hstored with hdata | hraw
    · left
      show (s.edge.data.write _ _).read _ = _
      rw [Folder.read_write]
      split
      · rename_i heq
        rw [N.path_injective heq]
      · exact hdata
    · exact .inr hraw
  refine ⟨h.of_traced hlater rfl rfl (hlater.traced ?_), hlater⟩
  exact { h.toTraced with data := h.data.write ⟨chunkId, rfl, rfl⟩ }

theorem kept_writeManifest (h : s.Provenance N sha256) {path : RelPath} {manifest : ChunkManifest}
    (hop : N.Allows sha256 (.writeManifest path manifest) s) :
    Kept N sha256 s (run sha256 (.writeManifest path manifest) s).2 := by
  obtain ⟨hfits, rfl, hstored⟩ := hop
  have hlater : Later N s (run sha256 (.writeManifest manifest.manifestPath manifest) s).2 :=
    ⟨fun _ hm => List.mem_append_left _ hm, fun _ h => h, id, id, id, id⟩
  have ht := hlater.traced h.toTraced
  refine ⟨⟨{ ht with manifests := ht.manifests.write ?_ }, ?_, ?_, ?_⟩, hlater⟩
  · intro m hm
    cases hm
    exact ⟨List.mem_append_right _ (List.mem_singleton_self _), rfl⟩
  · intro m hm
    rcases List.mem_append.mp hm with hm | hm
    · exact h.fits m hm
    · rw [List.mem_singleton.mp hm]
      exact hfits
  · exact fun m hm => List.mem_append_left _ (h.copies hm)
  · intro m hm
    rcases List.mem_append.mp hm with hm | hm
    · exact h.stored m hm
    · rw [List.mem_singleton.mp hm]
      exact hstored

theorem kept_unlinkData (h : s.Provenance N sha256) {path : RelPath}
    (hop : N.Allows sha256 (.unlinkData path) s) :
    Kept N sha256 s (run sha256 (.unlinkData path) s).2 := by
  obtain ⟨chunkId, rfl, hraw⟩ := hop
  refine ifFound_files (.self h) fun _ _ => ?_
  have hlater : Later N s { s with edge.data := s.edge.data.remove (N.path chunkId) } := by
    refine ⟨fun _ h => h, fun _ h => h, fun {other} hstored => ?_, id, id, id⟩
    rcases hstored with hdata | hother
    · by_cases heq : N.path chunkId = N.path other
      · rw [← N.path_injective heq]
        exact .inr hraw
      · left
        show (s.edge.data.remove _).read _ = _
        rw [Folder.read_remove, if_neg heq]
        exact hdata
    · exact .inr hother
  refine ⟨h.of_traced hlater rfl rfl (hlater.traced ?_), hlater⟩
  exact { h.toTraced with data := h.data.remove _ }

theorem kept_syncInventory (h : s.Provenance N sha256) (path : RelPath) :
    Kept N sha256 s (run sha256 (.syncInventory path) s).2 := by
  refine ifFound_files (.self h) fun content hread => ?_
  have hsource := h.manifests path content hread
  have hlater : Later N s { s with
      pull.inventory := s.pull.inventory.write path content
      copied := s.copied ++ content.toList } :=
    ⟨fun _ h => h, fun _ hm => List.mem_append_left _ hm, id, id, id, id⟩
  have ht := hlater.traced h.toTraced
  refine ⟨⟨{ ht with inventory := ht.inventory.write ?_ }, h.fits, ?_, h.stored⟩, hlater⟩
  · intro manifest hm
    exact ⟨List.mem_append_right _ (Option.mem_toList.mpr hm), (hsource manifest hm).2⟩
  · intro manifest hm
    rcases List.mem_append.mp hm with hm | hm
    · exact h.copies hm
    · exact (hsource manifest (Option.mem_toList.mp hm)).1

/-- The bytes that `_verify_local` accepts for a copied manifest are the published ones. -/
theorem Provenance.verified (h : s.Provenance N sha256)
    (hsha : ∀ content chunkId, sha256 content = sha256 (N.content chunkId) →
      content = N.content chunkId) {manifest : ChunkManifest} (hm : manifest ∈ s.copied)
    {content : Bytes} (hverify : sha256 content = manifest.sha256) :
    content = N.content manifest.chunkId :=
  hsha _ _ (hverify.trans (h.fits manifest (h.copies hm)).sha256)

/-- New data in the raw tree. -/
theorem kept_store (h : s.Provenance N sha256)
    (hsha : ∀ content chunkId, sha256 content = sha256 (N.content chunkId) →
      content = N.content chunkId) {manifest : ChunkManifest} (hm : manifest ∈ s.copied)
    {content : Bytes} (hverify : sha256 content = manifest.sha256)
    (mirrorData : Folder RelPath Bytes) (rawPartials : Folder (String ×ₗ RelPath) Bytes) :
    Kept N sha256 s { s with
      pull.mirrorData := mirrorData
      pull.rawPartials := rawPartials
      pull.rawData :=
        s.pull.rawData.write (toLex (manifest.collectorId, manifest.dataPath)) content } := by
  have hfits := h.fits manifest (h.copies hm)
  obtain rfl := h.verified hsha hm hverify
  rw [hfits.collectorId, hfits.dataPath]
  generalize manifest.chunkId = chunkId
  have hlater : Later N s { s with
      pull.mirrorData := mirrorData
      pull.rawPartials := rawPartials
      pull.rawData := s.pull.rawData.write (toLex (N.collectorId, N.path chunkId))
        (N.content chunkId) } := by
    have hraw : ∀ {other}, s.InRaw N other →
        (s.pull.rawData.write (toLex (N.collectorId, N.path chunkId)) (N.content chunkId)).read
          (toLex (N.collectorId, N.path other)) = some (N.content other) := by
      intro other hother
      rw [Folder.read_write]
      split
      · rename_i heq
        rw [N.path_injective (Prod.ext_iff.mp (toLex.injective heq)).2]
      · exact hother
    exact ⟨fun _ h => h, fun _ h => h, fun hstored => hstored.imp_right hraw, hraw, id, id⟩
  refine ⟨h.of_traced hlater rfl rfl (hlater.traced ?_), hlater⟩
  exact { h.toTraced with rawData := h.rawData.write ⟨chunkId, rfl, rfl⟩ }

theorem kept_writeRawManifest (h : s.Provenance N sha256) {collectorId : String} {path : RelPath}
    {manifest : ChunkManifest} (hop : N.Allows sha256 (.writeRawManifest collectorId path manifest) s) :
    Kept N sha256 s (run sha256 (.writeRawManifest collectorId path manifest) s).2 := by
  obtain ⟨hm, rfl, rfl⟩ := hop
  have hlater : Later N s
      (run sha256 (.writeRawManifest N.collectorId manifest.manifestPath manifest) s).2 := by
    refine ⟨fun _ h => h, fun _ h => h, id, id, fun {other} hother => ?_, id⟩
    show (s.pull.rawManifests.write _ _).read _ ≠ none
    rw [Folder.read_write]
    split
    · simp
    · exact hother
  refine ⟨h.of_traced hlater rfl rfl (hlater.traced ?_), hlater⟩
  exact { h.toTraced with rawManifests := h.rawManifests.write ⟨manifest, hm, rfl, rfl⟩ }

theorem kept_writeSealed (h : s.Provenance N sha256) {day : DayManifest}
    (hop : N.Allows sha256 (.writeSealed day) s) :
    Kept N sha256 s (run sha256 (.writeSealed day) s).2 := by
  have hlater : Later N s (run sha256 (.writeSealed day) s).2 := by
    refine ⟨fun _ h => h, fun _ h => h, id, id, id, fun {utcDate} hsealed => ?_⟩
    show (s.edge.sealedDays.write _ _).read _ ≠ none
    rw [Folder.read_write]
    split
    · simp
    · exact hsealed
  refine ⟨h.of_traced hlater rfl rfl (hlater.traced ?_), hlater⟩
  exact { h.toTraced with sealedDays := h.sealedDays.write hop }

/-- What an allowed operation keeps. -/
theorem kept_run (hsha : ∀ content chunkId, sha256 content = sha256 (N.content chunkId) →
      content = N.content chunkId) (h : s.Provenance N sha256) {op : TransferOp}
    (hop : N.Allows sha256 op s) : Kept N sha256 s (run sha256 op s).2 := by
  have ht := h.toTraced
  cases op with
  | placeData path content => exact kept_placeData h hop
  | writeManifest path manifest => exact kept_writeManifest h hop
  | unlinkData path => exact kept_unlinkData h hop
  | syncInventory path => exact kept_syncInventory h path
  | writeRawManifest collectorId path manifest => exact kept_writeRawManifest h hop
  | promote collectorId path sizeBytes hash =>
    obtain ⟨manifest, hm, rfl, rfl, rfl⟩ := hop
    exact ifVerified_files sha256 (.self h) fun content _ hverify =>
      kept_store h hsha hm hverify (s.pull.mirrorData.remove _) s.pull.rawPartials
  | replacePartial collectorId path sizeBytes hash =>
    obtain ⟨manifest, hm, rfl, rfl, rfl⟩ := hop
    exact ifVerified_files sha256 (.self h) fun content _ hverify =>
      kept_store h hsha hm hverify s.pull.mirrorData (s.pull.rawPartials.remove _)
  | unlinkAck name =>
    exact ifFound_files (.self h) fun _ _ =>
      .of_same h rfl rfl rfl rfl rfl rfl { ht with acks := ht.acks.remove _ }
  | quarantineAck name reason =>
    exact ifFound_files (.self h) fun _ _ =>
      .of_same h rfl rfl rfl rfl rfl rfl { ht with acks := ht.acks.remove _ }
  | writeTransaction name transaction =>
    refine .of_same h rfl rfl rfl rfl rfl rfl { ht with applying := ht.applying.write ?_ }
    intro t htransaction
    cases htransaction
    exact hop
  | unlinkTransaction name =>
    exact .of_same h rfl rfl rfl rfl rfl rfl { ht with applying := ht.applying.remove _ }
  | quarantineTransaction name reason =>
    exact ifFound_files (.self h) fun _ _ =>
      .of_same h rfl rfl rfl rfl rfl rfl { ht with applying := ht.applying.remove _ }
  | unlinkManifest path =>
    exact ifFound_files (.self h) fun _ _ =>
      .of_same h rfl rfl rfl rfl rfl rfl { ht with manifests := ht.manifests.remove _ }
  | moveManifest path utcDate =>
    obtain ⟨named, hnamed, rfl, rfl⟩ := hop
    refine ifFound_files (.self h) fun content hread => .of_same h rfl rfl rfl rfl rfl rfl { ht with
      manifests := ht.manifests.remove _
      acked := ht.acked.write fun manifest hm => ?_ }
    obtain ⟨hpublished, hpath⟩ := ht.manifests _ content hread manifest hm
    exact ⟨hpublished, (h.fits _ hnamed).utcDate_eq (h.fits _ hpublished) hpath⟩
  | writeSealed day => exact kept_writeSealed h hop
  | unlinkAcked utcDate name =>
    exact ifFound_files (.self h) fun _ _ =>
      .of_same h rfl rfl rfl rfl rfl rfl { ht with acked := ht.acked.remove _ }
  | appendIndex utcDate chunk =>
    refine .of_same h rfl rfl rfl rfl rfl rfl { ht with index := ht.index.write ?_ }
    intro line hline
    rcases List.mem_append.mp hline with hline | hline
    · cases hread : s.edge.dayIndex.read utcDate with
      | none => simp [hread] at hline
      | some lines => exact ht.index utcDate lines hread line (by simpa [hread] using hline)
    · rw [List.mem_singleton.mp hline]
      exact hop
  | unlinkIndex utcDate =>
    exact ifFound_files (.self h) fun _ _ =>
      .of_same h rfl rfl rfl rfl rfl rfl { ht with index := ht.index.remove _ }
  | dropInventory path =>
    exact .of_same h rfl rfl rfl rfl rfl rfl { ht with inventory := ht.inventory.remove _ }
  | syncInventorySealed utcDate =>
    exact ifFound_files (.self h) fun day hread =>
      .of_same h rfl rfl rfl rfl rfl rfl { ht with
        inventorySealed := ht.inventorySealed.write (ht.sealedDays utcDate day hread) }
  | publishManifest path =>
    exact ifFound_files (.self h) fun content hread =>
      .of_same h rfl rfl rfl rfl rfl rfl { ht with
        mirrorManifests := ht.mirrorManifests.write (ht.inventory path content hread) }
  | publishSealed utcDate =>
    exact ifFound_files (.self h) fun day hread =>
      .of_same h rfl rfl rfl rfl rfl rfl { ht with
        mirrorSealed := ht.mirrorSealed.write (ht.inventorySealed utcDate day hread) }
  | dropMirrorManifest path =>
    exact .of_same h rfl rfl rfl rfl rfl rfl { ht with mirrorManifests := ht.mirrorManifests.remove _ }
  | writeMirrorAck name ack =>
    refine .of_same h rfl rfl rfl rfl rfl rfl { ht with mirrorAcks := ht.mirrorAcks.write ?_ }
    intro a ha
    cases ha
    exact hop
  | quarantineMirrorAck name reason =>
    exact ifFound_files (.self h) fun _ _ =>
      .of_same h rfl rfl rfl rfl rfl rfl { ht with mirrorAcks := ht.mirrorAcks.remove _ }
  | pushAck name =>
    exact ifFound_files (.self h) fun content hread =>
      .of_same h rfl rfl rfl rfl rfl rfl { ht with
        acks := ht.acks.write (ht.mirrorAcks name content hread) }
  | unlinkMirrorAck name =>
    exact ifFound_files (.self h) fun _ _ =>
      .of_same h rfl rfl rfl rfl rfl rfl { ht with mirrorAcks := ht.mirrorAcks.remove _ }
  | syncData path =>
    exact ifFound_files (.self h) fun _ _ => .of_same h rfl rfl rfl rfl rfl rfl { ht with }
  | download collectorId path =>
    exact ifFound_files (.self h) fun _ _ => .of_same h rfl rfl rfl rfl rfl rfl { ht with }
  | _ => exact .of_same h rfl rfl rfl rfl rfl rfl { ht with }

theorem kept_sem (hsha : ∀ content chunkId, sha256 content = sha256 (N.content chunkId) →
      content = N.content chunkId) (h : s.Provenance N sha256) {op : TransferOp}
    (hop : N.Allows sha256 op s) {answer : op.Answer} (hsem : Sem sha256 op s answer s') :
    Kept N sha256 s s' := by
  cases hsem with
  | done => exact kept_run hsha h hop
  | failed => exact .self h
  | failedLate => exact kept_run hsha h hop
  | tornAppend => exact .of_same h rfl rfl rfl rfl rfl rfl { h.toTraced with }
  | partialSync => exact .of_same h rfl rfl rfl rfl rfl rfl { h.toTraced with }

end TransferFiles

end MiryFormal
