import MiryFormal.Collector.GapJournal
import MiryFormal.Transfer.System

/-!
# No chunk is lost

Publication, synchronisation, ingest, upload and application of ACKs, and sealing, in any
order and interrupted anywhere.
-/

namespace MiryFormal

set_option autoImplicit false

open Program TransferOp TransferFiles

variable (N : Naming) (sha256 : Bytes → String) (encode : GapEvent → Bytes)

/-- The programs of one edge and of its pipeline. A publication writes what its id names. -/
inductive Naming.May : TransferFiles → TransferProgram Unit → Prop
  | finish {s : TransferFiles} {session : ChunkSession} :
      N.Drafts session.draft session.content → May s (session.finishAndRecord sha256)
  | gap {s : TransferFiles} {write : GapWrite} {retriedAt : Int} :
      N.Drafts write.draft (encode write.event) → May s (publishGap sha256 encode write retriedAt)
  | applyAcks {s : TransferFiles} (call : ApplyCall) :
      May s (do let _ ← call.applyAcks)
  | sealDay {s : TransferFiles} (utcDate sealedAt : Int) :
      May s (sealDay N.collectorId utcDate sealedAt)
  | pullReady {s : TransferFiles} : May s pullReady
  | ingest {s : TransferFiles} (call : PullCall) : May s (do let _ ← call.run sha256)
  | pushAcks {s : TransferFiles} : May s pushAcks
  | pull {s : TransferFiles} (call : PullCall) : May s (runPull sha256 call)

variable {N sha256 encode}

theorem Naming.May.fulfils {hsha : N.CollisionFree sha256} {s : TransferFiles}
    {p : TransferProgram Unit} (hmay : N.May sha256 encode s p) (hs : s.Provenance N sha256) :
    Fulfils hsha (fun _ _ => True) p s := by
  cases hmay with
  | finish hsession => exact fulfils_finishAndRecord hsession hs
  | gap hwrite => exact fulfils_publishGap hwrite _ hs
  | applyAcks call =>
    exact Fulfils.bind (ApplyCall.fulfils_applyAcks call hs) fun _ _ _ hs₁ _ => Fulfils.ret hs₁ trivial
  | sealDay utcDate sealedAt => exact fulfils_sealDay utcDate sealedAt
  | pullReady => exact Fulfils.of_each each_pullReady hs
  | ingest call =>
    exact Fulfils.bind (call.fulfils_run hs) fun _ _ _ hs₁ _ => Fulfils.ret hs₁ trivial
  | pushAcks => exact Fulfils.of_each each_pushAcks hs
  | pull call => exact fulfils_runPull call hs

theorem provenance_empty : ({} : TransferFiles).Provenance N sha256 where
  data := .empty
  manifests := .empty
  acked := .empty
  index := .empty
  sealedDays := .empty
  acks := .empty
  applying := .empty
  inventory := .empty
  inventorySealed := .empty
  mirrorManifests := .empty
  mirrorSealed := .empty
  mirrorAcks := .empty
  rawData := .empty
  rawManifests := .empty
  fits := fun _ hm => nomatch hm
  copies := fun _ hm => nomatch hm
  stored := fun _ hm => nomatch hm

abbrev TransferCrew := Crew TransferOp TransferOp.Answer Failure TransferFiles

/-- What the provenance of all files gives, and a further invariant of allowed operations. -/
theorem TransferCrew.invariant
    {sem : (op : TransferOp) → TransferFiles → op.Answer → TransferFiles → Prop}
    {J : TransferFiles → Prop} (hsha : N.CollisionFree sha256)
    (hsem : ∀ op s r s', sem op s r s' → Sem sha256 op s r s')
    (hJ : ∀ op s r s', s.Provenance N sha256 → N.Allows sha256 op s → sem op s r s' → J s → J s')
    {crew : TransferCrew} (hreach : Crew.Reaches sem (N.May sha256 encode) ⟨{}, []⟩ crew)
    (hstart : J {}) : crew.store.Provenance N sha256 ∧ J crew.store := by
  have h := Crew.Reaches.invariant (D := N.discipline hsha) hsem Later.refl
    (fun _ _ _ => Later.trans) (fun _ _ _ _ hinv hop hdone => (kept_sem hsha hinv hop hdone).2)
    (fun s p hinv hmay => (hmay.fulfils hinv).mono fun _ _ _ => trivial) hJ hreach
    ⟨provenance_empty, fun _ hm => nomatch hm⟩ hstart
  exact ⟨h.1.1, h.2⟩

namespace TransferFiles

/-- The raw tree of the chunk's collector holds these bytes at its data path. -/
def HoldsRaw (s : TransferFiles) (manifest : ChunkManifest) (content : Bytes) : Prop :=
  s.pull.rawData.read (toLex (manifest.collectorId, manifest.dataPath)) = some content

/-- A manifest of the same chunk lies beside them. -/
def HoldsManifest (s : TransferFiles) (manifest : ChunkManifest) : Prop :=
  ∃ stored : ChunkManifest,
    s.pull.rawManifests.read (toLex (manifest.collectorId, manifest.manifestPath)) =
      some (some stored) ∧ stored.asRef = manifest.asRef

/-- Somewhere between the two sides, or inside a transaction, there is this ACK. -/
def HasAck (s : TransferFiles) (ack : Ack) : Prop :=
  (∃ name, s.pull.mirrorAcks.read name = some (some ack)) ∨
    (∃ name, s.edge.acks.read name = some (some ack)) ∨
      ∃ name transaction, s.edge.applying.read name = some (some transaction) ∧
        transaction.ack = ack

variable {s : TransferFiles}

theorem Provenance.holdsRaw (hs : s.Provenance N sha256) {manifest : ChunkManifest}
    (hm : manifest ∈ s.published) (hraw : s.InRaw N manifest.chunkId) :
    s.HoldsRaw manifest (N.content manifest.chunkId) := by
  have hfits := hs.fits manifest hm
  rw [HoldsRaw, hfits.collectorId, hfits.dataPath]
  exact hraw

theorem Provenance.holdsManifest (hs : s.Provenance N sha256) {manifest : ChunkManifest}
    (hm : manifest ∈ s.published) (hlocal : s.HasLocal N manifest.chunkId) :
    s.HoldsManifest manifest := by
  have hfits := hs.fits manifest hm
  obtain ⟨content, hread⟩ := Option.ne_none_iff_exists'.mp hlocal
  obtain ⟨stored, hstored, rfl, hkey⟩ := hs.rawManifests _ _ hread
  refine ⟨stored, ?_, ?_⟩
  · rw [hfits.collectorId, hfits.manifestPath]
    exact hread
  · refine (hs.fits stored (hs.copies hstored)).asRef_eq hfits ?_
    rw [hfits.manifestPath]
    exact (Prod.ext_iff.mp (toLex.injective hkey)).2.symm

theorem Provenance.backed_of_hasAck (hs : s.Provenance N sha256) {ack : Ack} (h : s.HasAck ack) :
    s.Backed N ack := by
  rcases h with ⟨name, hread⟩ | ⟨name, hread⟩ | ⟨name, transaction, hread, rfl⟩
  · exact hs.mirrorAcks name _ hread ack rfl
  · exact hs.acks name _ hread ack rfl
  · exact (hs.applying name _ hread transaction rfl).backed

end TransferFiles

/-- Where an id names one content, every chunk whose manifest was ever published has its bytes at
its ready path or in the raw tree, and an ACK is of a chunk that the raw tree holds, manifest and
all. -/
theorem chunks_never_lost (hsha : N.CollisionFree sha256) {crew : TransferCrew}
    (hreach : Crew.Reaches (Sem sha256) (N.May sha256 encode) ⟨{}, []⟩ crew) :
    (∀ manifest ∈ crew.store.published,
      (N.content manifest.chunkId).length = manifest.sizeBytes ∧
        sha256 (N.content manifest.chunkId) = manifest.sha256 ∧
        (crew.store.edge.data.read manifest.dataPath = some (N.content manifest.chunkId) ∨
          crew.store.HoldsRaw manifest (N.content manifest.chunkId))) ∧
      ∀ ack, crew.store.HasAck ack →
        ∃ manifest ∈ crew.store.published,
          manifest.chunkId = ack.chunkId ∧ manifest.sha256 = ack.sha256 ∧
          crew.store.HoldsRaw manifest (N.content manifest.chunkId) ∧
          crew.store.HoldsManifest manifest := by
  have hs := (TransferCrew.invariant (J := fun _ => True) hsha (fun _ _ _ _ h => h)
    (fun _ _ _ _ _ _ _ _ => trivial) hreach trivial).1
  constructor
  · intro manifest hm
    have hfits := hs.fits manifest hm
    refine ⟨hfits.sizeBytes.symm, hfits.sha256.symm, ?_⟩
    rcases hs.stored manifest hm with hdata | hraw
    · left
      rw [hfits.dataPath]
      exact hdata
    · exact .inr (hs.holdsRaw hm hraw)
  · intro ack hack
    obtain ⟨manifest, hm, hid, hhash, hraw, hlocal⟩ := hs.backed_of_hasAck hack
    rw [← hid] at hraw hlocal
    exact ⟨manifest, hm, hid, hhash, hs.holdsRaw hm hraw, hs.holdsManifest hm hlocal⟩

/-! A chunk that goes the whole way. -/

namespace Sample

def content : Bytes := [100, 117, 114, 97, 98, 108, 101, 32, 99, 104, 117, 110, 107]

/-- SHA-256, on the data of the sample. -/
def digest (data : Bytes) : String :=
  if data = content then "5110bfdc5ede73c4b613bacaf3add4aa142b948439893041d3b85e2f6156b6a0"
  else ""

def session : ChunkSession where
  collectorId := "tokyo01"
  writerGroup := .depth
  timestamp := "20260810T000000.000000Z"
  suffix := "0123456789ab"
  utcDate := 20675
  content := content
  eventCount := 1
  minRealtimeNs := 1
  maxRealtimeNs := 1
  dataContractHash := "a"
  universeHash := "a"
  finishedAt := 1786320001000000

def fileName (chunkId : String) : String := if chunkId = "" then "" else chunkId ++ ".parquet"

theorem manifestName_fileName (chunkId : String) :
    RelPath.manifestName (fileName chunkId) = chunkId ++ ".manifest.json" := by
  by_cases h : chunkId = ""
  · rw [h]
    decide
  · rw [fileName, if_neg h, RelPath.manifestName_parquet h]

def naming : Naming where
  collectorId := "tokyo01"
  utcDate := fun _ => 20675
  writerGroup := fun _ => .depth
  fileName := fileName
  contentType := fun _ => .parquet
  content := fun _ => content
  distinct := by
    intro a b h
    simp only [manifestName_fileName, Prod.mk.injEq, true_and] at h
    exact (String.append_left_inj _).mp h

theorem collisionFree : naming.CollisionFree digest := by
  intro data chunkId h
  by_contra hne
  have hdata : digest data = "" := if_neg hne
  have hcontent : digest (naming.content chunkId) ≠ "" := by
    show digest content ≠ ""
    decide +kernel
  exact hcontent (h.symm.trans hdata)

def pullCall : PullCall := ⟨true, fun _ => 1786320300000000⟩

def applyCall : ApplyCall := ⟨"apply-1", 1786320305000000⟩

def runAlone (p : TransferProgram Unit) (s : TransferFiles) : TransferFiles :=
  p.cut (fun op s => .ok (TransferOp.run digest op s)) 60 s

def finished : TransferFiles := runAlone (session.finishAndRecord digest) {}

def pulled : TransferFiles := runAlone (runPull digest pullCall) finished

def done : TransferFiles := runAlone (do let _ ← applyCall.applyAcks) pulled

theorem drafts : naming.Drafts session.draft session.content where
  collectorId := rfl
  utcDate := rfl
  writerGroup := rfl
  dataPath := by decide +kernel
  contentType := rfl
  content := rfl

/-- A program may run alone at any time, if its operations meet what is asked of them. -/
theorem reaches_runAlone {N : Naming} {encode : GapEvent → Bytes}
    {sem : (op : TransferOp) → TransferFiles → op.Answer → TransferFiles → Prop}
    {good : TransferOp → TransferFiles → Bool}
    (hsem : ∀ op s, good op s = true →
      sem op s (TransferOp.run digest op s).1 (TransferOp.run digest op s).2)
    {crew : TransferCrew} {p : TransferProgram Unit} {s : TransferFiles}
    {tasks : List (TransferProgram Unit)} (hmay : N.May digest encode s p)
    (hmeets : Crew.Meets (TransferOp.run digest) good 60 p s = true)
    (h : Crew.Reaches sem (N.May digest encode) crew ⟨s, tasks⟩) :
    ∃ tasks', Crew.Reaches sem (N.May digest encode) crew ⟨runAlone p s, tasks'⟩ :=
  h.launch_cut hsem hmay hmeets

theorem sem_done (op : TransferOp) (s : TransferFiles) (_ : true = true) :
    Sem digest op s (TransferOp.run digest op s).1 (TransferOp.run digest op s).2 := .done op s

theorem meets_true (p : TransferProgram Unit) (s : TransferFiles) :
    Crew.Meets (TransferOp.run digest) (fun _ _ => true) 60 p s = true :=
  Crew.meets_of_forall (fun _ _ => rfl) 60 p s

theorem reaches_done : ∃ tasks, Crew.Reaches (Sem digest) (naming.May digest fun _ => [])
    ⟨{}, []⟩ ⟨done, tasks⟩ := by
  have hstart : Crew.Reaches (Sem digest) (naming.May digest fun _ => []) ⟨{}, []⟩ ⟨{}, []⟩ := .refl
  obtain ⟨_, h⟩ := reaches_runAlone sem_done (.finish drafts) (meets_true _ _) hstart
  obtain ⟨_, h⟩ := reaches_runAlone sem_done (.pull pullCall) (meets_true _ _) h
  exact reaches_runAlone sem_done (.applyAcks applyCall) (meets_true _ _) h

end Sample

theorem chunks_never_lost_sample :
    Sample.done.published.length = 1 ∧ ∀ manifest ∈ Sample.done.published,
      Sample.content.length = manifest.sizeBytes ∧
        Sample.digest Sample.content = manifest.sha256 ∧
        (Sample.done.edge.data.read manifest.dataPath = some Sample.content ∨
          Sample.done.HoldsRaw manifest Sample.content) := by
  refine ⟨by decide +kernel, ?_⟩
  obtain ⟨tasks, h⟩ := Sample.reaches_done
  exact (chunks_never_lost Sample.collisionFree h).1

/-! Two events under one artifact id. A gap is closed in the last nanosecond of a day, and the
process ends before its state file is removed. The next boot finds the state file, rolls the gap
into the new day, and ends the old one with another CLOSED event at the same nanosecond. -/

namespace Sample

/-- The publications of the gap journal, whatever their events. -/
inductive PublishesGaps (sha256 : Bytes → String) (encode : GapEvent → Bytes) :
    TransferFiles → TransferProgram Unit → Prop
  | gap {s : TransferFiles} (write : GapWrite) (retriedAt : Int) :
      PublishesGaps sha256 encode s (publishGap sha256 encode write retriedAt)

def ascii (text : String) : Bytes := text.toList.map fun c => c.val.toUInt8

def jsonText (text : String) : Bytes := ascii "\"" ++ ascii text ++ ascii "\""

def jsonTexts (texts : List String) : Bytes :=
  ascii "[" ++ List.intercalate (ascii ",") (texts.map jsonText) ++ ascii "]"

/-- The canonical JSON of an event, where no text needs an escape. -/
def gapBytes (event : GapEvent) : Bytes :=
  [ascii "\x7b\"affected_from_realtime_ns\":",
    (event.affectedFromRealtimeNs.map fun ns => ascii (toString ns)).getD (ascii "null"),
    ascii ",\"collector_id\":", jsonText event.collectorId,
    ascii ",\"connection_id\":", (event.connectionId.map jsonText).getD (ascii "null"),
    ascii ",\"detail\":", jsonText event.detail,
    ascii ",\"exchange_symbols\":", jsonTexts event.exchangeSymbols,
    ascii ",\"gap_id\":", jsonText event.gapId,
    ascii ",\"observed_at_realtime_ns\":", ascii (toString event.observedAtRealtimeNs),
    ascii ",\"reason\":", jsonText event.reason.value,
    ascii ",\"schema_version\":2,\"state\":", jsonText event.state.value,
    ascii ",\"stream_types\":", jsonTexts (event.streamTypes.map StreamType.value),
    ascii "\x7d\n"].flatten

def lateGap : GapEvent where
  gapId := "gap-5d41402abc4b2a76b9719d911017c592"
  state := .opened
  reason := .connectionLost
  collectorId := "tokyo01"
  exchangeSymbols := ["BTCUSDT"]
  streamTypes := [.depth]
  observedAtRealtimeNs := 1786320000000000500

/-- What `close` publishes. -/
def closedLate : GapEvent :=
  { lateGap with
    state := .closed
    observedAtRealtimeNs := 1786406399999999999
    observed_nonneg := by decide
    affected_le := unaffected_le 1786406399999999999
    closed_unaffected := unaffected .closed }

/-- What `_roll_state_to` publishes at the next boot. -/
def closedByRoll : GapEvent := lateGap.closedAtEndOf 20675

/-- SHA-256, on the events of the sample. -/
def gapDigest (data : Bytes) : String :=
  if data = gapBytes lateGap then
    "7b8c4ddf6e4dddc0f98eb2f638fce30a4e7369b2e4dbf850ea313cf2a17b1f26"
  else if data = gapBytes closedLate then
    "1acb4635ea3010e1a11294dc95e588d27c6e29885fb75265f32f327923c5a21e"
  else if data = gapBytes closedByRoll then
    "275e0c6f49e20c34b370c2e57188dc7669d9b4a834365072df3f9f533e7e4b7c"
  else ""

def lateWrite (event : GapEvent) (createdAt : Int) : GapWrite where
  event
  dataContractHash := "5f4dcc3b5aa765d61d8327deb882cf995f4dcc3b5aa765d61d8327deb882cf99"
  universeHash := "7c6a180b36896a0a8c02787eeafb0e4c7c6a180b36896a0a8c02787eeafb0e4c"
  createdAt

def publishLate (event : GapEvent) (createdAt : Int) : TransferProgram Unit :=
  publishGap gapDigest gapBytes (lateWrite event createdAt) createdAt

def publishedAlone (event : GapEvent) (createdAt : Int) (s : TransferFiles) : TransferFiles :=
  (publishLate event createdAt).cut (fun op s => .ok (TransferOp.run gapDigest op s)) 60 s

def closedTwice : TransferFiles :=
  publishedAlone closedByRoll 1786406460000000
    (publishedAlone closedLate 1786406400000000 (publishedAlone lateGap 1786320000000001 {}))

theorem reaches_publishedAlone (event : GapEvent) (createdAt : Int) {crew : TransferCrew}
    {s : TransferFiles} {tasks : List (TransferProgram Unit)}
    (h : Crew.Reaches (Sem gapDigest) (PublishesGaps gapDigest gapBytes) crew ⟨s, tasks⟩) :
    ∃ tasks', Crew.Reaches (Sem gapDigest) (PublishesGaps gapDigest gapBytes) crew
      ⟨publishedAlone event createdAt s, tasks'⟩ :=
  h.launch_cut (fun op s _ => Sem.done op s) (.gap (lateWrite event createdAt) createdAt)
    (Crew.meets_of_forall (fun _ _ => rfl) 60 _ s)

theorem reaches_closedTwice : ∃ tasks, Crew.Reaches (Sem gapDigest)
    (PublishesGaps gapDigest gapBytes) ⟨{}, []⟩ ⟨closedTwice, tasks⟩ := by
  have hstart : Crew.Reaches (Sem gapDigest) (PublishesGaps gapDigest gapBytes)
      ⟨{}, []⟩ ⟨{}, []⟩ := .refl
  obtain ⟨_, h⟩ := reaches_publishedAlone lateGap 1786320000000001 hstart
  obtain ⟨_, h⟩ := reaches_publishedAlone closedLate 1786406400000000 h
  exact reaches_publishedAlone closedByRoll 1786406460000000 h

end Sample

/-- A chunk has lost its bytes once others stand at its data path and none are in the raw tree. -/
theorem TransferFiles.lost_of_overwritten {s : TransferFiles} {manifest : ChunkManifest}
    {other : String}
    (hdata : (s.edge.data.read manifest.dataPath).map sha256 = some other)
    (hraw : s.pull.rawData.read (toLex (manifest.collectorId, manifest.dataPath)) = none)
    (hdiffer : manifest.sha256 ≠ other) {content : Bytes}
    (hcontent : sha256 content = manifest.sha256) :
    s.edge.data.read manifest.dataPath ≠ some content ∧ ¬ s.HoldsRaw manifest content := by
  constructor
  · intro hread
    rw [hread, Option.map_some, hcontent] at hdata
    exact hdiffer (Option.some.inj hdata)
  · intro hheld
    unfold TransferFiles.HoldsRaw at hheld
    rw [hraw] at hheld
    cases hheld

/-- The first of two CLOSED events under one id is published, and its bytes are nowhere. -/
theorem chunk_lost_sameId :
    ∃ crew : TransferCrew,
      Crew.Reaches (Sem Sample.gapDigest) (Sample.PublishesGaps Sample.gapDigest Sample.gapBytes)
        ⟨{}, []⟩ crew ∧
      ∃ manifest ∈ crew.store.published,
        manifest.sha256 = Sample.gapDigest (Sample.gapBytes Sample.closedLate) ∧
        ∀ content, Sample.gapDigest content = manifest.sha256 →
          crew.store.edge.data.read manifest.dataPath ≠ some content ∧
            ¬ crew.store.HoldsRaw manifest content := by
  obtain ⟨tasks, h⟩ := Sample.reaches_closedTwice
  have hlost : (Sample.closedTwice.published.any fun manifest =>
      manifest.sha256 = Sample.gapDigest (Sample.gapBytes Sample.closedLate) ∧
        (Sample.closedTwice.edge.data.read manifest.dataPath).map Sample.gapDigest =
          some (Sample.gapDigest (Sample.gapBytes Sample.closedByRoll)) ∧
        Sample.closedTwice.pull.rawData.read
          (toLex (manifest.collectorId, manifest.dataPath)) = none) = true := by
    decide +kernel
  have hdiffer : Sample.gapDigest (Sample.gapBytes Sample.closedLate) ≠
      Sample.gapDigest (Sample.gapBytes Sample.closedByRoll) := by
    decide +kernel
  obtain ⟨manifest, hm, hfound⟩ := List.any_eq_true.mp hlost
  obtain ⟨hhash, hdata, hraw⟩ := of_decide_eq_true hfound
  refine ⟨⟨Sample.closedTwice, tasks⟩, h, manifest, hm, hhash, fun content hcontent => ?_⟩
  dsimp only
  exact TransferFiles.lost_of_overwritten hdata hraw (hhash.trans_ne hdiffer) hcontent

end MiryFormal
