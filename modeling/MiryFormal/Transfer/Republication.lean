import MiryFormal.Collector.GapJournal
import MiryFormal.Transfer.DayPublication

/-!
# A gap artifact that is published again

The id of a gap artifact is that of its event, but each publication of it makes a manifest of
its own. The puller compares whole manifests, and accepts the artifact once more when the
manifest that it has seen was never rewritten.
-/

namespace MiryFormal

set_option autoImplicit false

open Program TransferOp TransferFiles

/-- A manifest that is written where a pull has already copied one is that one. -/
def rewritesNoCopy (op : TransferOp) (s : TransferFiles) : Bool :=
  match op with
  | .writeManifest path manifest =>
      s.copied.all fun copy => copy.manifestPath ≠ path || copy = manifest
  | _ => true

/-- An operation that meets the condition. -/
def KeepsCopies (sha256 : Bytes → String) (op : TransferOp) (s : TransferFiles)
    (answer : op.Answer) (s' : TransferFiles) : Prop :=
  rewritesNoCopy op s = true ∧ Sem sha256 op s answer s'

/-- The ingest of the manifest at `path`, run alone, ends with its ACK. -/
def Acknowledges (sha256 : Bytes → String) (call : PullCall) (s : TransferFiles) (path : RelPath)
    (manifest : ChunkManifest) : Prop :=
  ∃ chunk s', execAlone sha256 (call.ingestChunk sha256 path) s = (.ok chunk, s') ∧
    s'.pull.mirrorAcks.read (ackName manifest.chunkId) =
      some (some ⟨manifest.chunkId, manifest.sha256, call.durableAt path⟩)

/-- What a program has raised. -/
def raised {α : Type} : Except Failure α → Option Failure
  | .ok _ => none
  | .error e => some e

namespace TransferFiles

/-- A local manifest is the manifest that any pull of its chunk has copied. -/
def StoredAsSeen (s : TransferFiles) : Prop :=
  ∀ manifest ∈ s.copied, ∀ stored,
    s.pull.rawManifests.read (toLex (manifest.collectorId, manifest.manifestPath)) = some stored →
      stored = some manifest

/-- No manifest was copied in two versions, nor will be. -/
structure OneVersion (s : TransferFiles) : Prop where
  copies : ∀ copy ∈ s.copied, ∀ other ∈ s.copied,
    copy.manifestPath = other.manifestPath → copy = other
  ready : s.edge.manifests.All fun path content => ∀ manifest ∈ content,
    ∀ copy ∈ s.copied, copy.manifestPath = path → copy = manifest

variable {N : Naming} {sha256 : Bytes → String} {s s' : TransferFiles}

theorem OneVersion.of_same (h : s.OneVersion) (hready : s'.edge.manifests = s.edge.manifests)
    (hcopied : s'.copied = s.copied) : s'.OneVersion := by
  constructor
  · rw [hcopied]
    exact h.copies
  · rw [hready, hcopied]
    exact h.ready

theorem OneVersion.writeManifest (h : s.OneVersion) {path : RelPath} {manifest : ChunkManifest}
    (hgood : rewritesNoCopy (.writeManifest path manifest) s = true) :
    (TransferOp.run sha256 (.writeManifest path manifest) s).2.OneVersion := by
  refine ⟨h.copies, h.ready.write ?_⟩
  rintro _ ⟨⟩ copy hm hpath
  have hcopy := List.all_eq_true.mp hgood copy hm
  simpa [hpath] using hcopy

theorem OneVersion.syncInventory (h : s.OneVersion) (hs : s.Provenance N sha256)
    {path : RelPath} :
    (TransferOp.run sha256 (.syncInventory path) s).2.OneVersion := by
  refine ifFound_files h fun content hread => ?_
  cases content with
  | none =>
    refine h.of_same rfl ?_
    exact List.append_nil _
  | some manifest =>
    have hpath : path = manifest.manifestPath := (hs.manifests _ _ hread manifest rfl).2
    have hnew : ∀ copy ∈ s.copied, copy.manifestPath = path → copy = manifest :=
      h.ready _ _ hread manifest rfl
    have hcases : ∀ copy ∈ s.copied ++ [manifest], copy ∈ s.copied ∨ copy = manifest := by
      intro copy hm
      simpa using hm
    constructor
    · intro copy hm other hm' heq
      rcases hcases copy hm with hold | hcopy <;> rcases hcases other hm' with hold' | hother
      · exact h.copies copy hold other hold' heq
      · rw [hother] at heq ⊢
        exact hnew copy hold (heq.trans hpath.symm)
      · rw [hcopy] at heq ⊢
        exact (hnew other hold' (heq.symm.trans hpath.symm)).symm
      · rw [hcopy, hother]
    · intro readyPath content hready other hother copy hm hcopy
      rcases hcases copy hm with hm | rfl
      · exact h.ready readyPath content hready other hother copy hm hcopy
      · have hsame : readyPath = path := hcopy.symm.trans hpath.symm
        rw [hsame, hread] at hready
        cases hready
        exact Option.some.inj hother

theorem OneVersion.run (h : s.OneVersion) (hs : s.Provenance N sha256) {op : TransferOp}
    (hgood : rewritesNoCopy op s = true) : (TransferOp.run sha256 op s).2.OneVersion := by
  have hfound : ∀ {β : Type} (content : Option β) (change : β → TransferFiles),
      (∀ c, (change c).edge.manifests = s.edge.manifests ∧ (change c).copied = s.copied) →
        (ifFound content s change).2.OneVersion :=
    fun content change hsame => ifFound_files h fun c _ => h.of_same (hsame c).1 (hsame c).2
  have hremoved : ∀ path : RelPath, s.edge.manifests.remove path |>.All fun path content =>
      ∀ manifest ∈ content, ∀ copy ∈ s.copied, copy.manifestPath = path → copy = manifest :=
    fun path => h.ready.remove path
  cases op with
  | writeManifest path manifest => exact h.writeManifest hgood
  | syncInventory path => exact h.syncInventory hs
  | unlinkManifest path => exact ifFound_files h fun _ _ => ⟨h.copies, hremoved path⟩
  | moveManifest path utcDate => exact ifFound_files h fun _ _ => ⟨h.copies, hremoved path⟩
  | promote | replacePartial => exact ifVerified_files sha256 h fun _ _ _ => h.of_same rfl rfl
  | _ => first | exact h | exact h.of_same rfl rfl | exact hfound _ _ fun _ => ⟨rfl, rfl⟩

/-- What one operation keeps, also when it fails. -/
theorem OneVersion.step (h : s.OneVersion) (hs : s.Provenance N sha256) {op : TransferOp}
    {answer : op.Answer} (hop : KeepsCopies sha256 op s answer s') : s'.OneVersion := by
  obtain ⟨hgood, hsem⟩ := hop
  cases hsem with
  | done => exact h.run hs hgood
  | failed => exact h
  | failedLate => exact h.run hs hgood
  | tornAppend => exact h.of_same rfl rfl
  | partialSync => exact h.of_same rfl rfl

theorem oneVersion_empty : ({} : TransferFiles).OneVersion where
  copies := fun _ hm => nomatch hm
  ready := .empty

theorem OneVersion.storedAsSeen (h : s.OneVersion) (hs : s.Provenance N sha256) :
    s.StoredAsSeen := by
  intro manifest hm stored hread
  obtain ⟨copy, hcopy, rfl, hkey⟩ := hs.rawManifests _ _ hread
  have hpath := (Prod.ext_iff.mp (toLex.injective hkey)).2
  exact congrArg some (h.copies copy hcopy manifest hm hpath.symm)

end TransferFiles

variable {N : Naming} {sha256 : Bytes → String} {encode : GapEvent → Bytes} {s : TransferFiles}

theorem storeManifest_ok (h : s.StoredAsSeen) {manifest : ChunkManifest} (hm : manifest ∈ s.copied) :
    ∃ s', execAlone sha256 (PullCall.storeManifest manifest) s = (.ok (), s') := by
  rw [PullCall.storeManifest, execAlone_bind (execAlone_io rfl)]
  cases hread : s.pull.rawManifests.read (toLex (manifest.collectorId, manifest.manifestPath)) with
  | none => exact ⟨_, execAlone_io rfl⟩
  | some stored =>
    refine ⟨s, ?_⟩
    show execAlone sha256 (if stored ≠ some manifest then _ else _) s = _
    rw [if_neg (not_not.mpr (h manifest hm stored hread))]
    rfl

/-- The data of the chunk is there: it is verified, and found to be that of the manifest. -/
theorem storeData_ok (hs : s.Provenance N sha256) (call : PullCall) {manifest : ChunkManifest}
    (hm : manifest ∈ s.copied)
    (hdata : s.pull.rawData.read (toLex (manifest.collectorId, manifest.dataPath)) ≠ none) :
    execAlone sha256 (call.storeData sha256 manifest) s = (.ok false, s) := by
  obtain ⟨content, hread⟩ := Option.ne_none_iff_exists'.mp hdata
  have hfits := hs.fits manifest (hs.copies hm)
  obtain ⟨chunkId, hkey, rfl⟩ := hs.rawData _ _ hread
  have hpath : N.path manifest.chunkId = N.path chunkId := by
    rw [← hfits.dataPath]
    exact (Prod.ext_iff.mp (toLex.injective hkey)).2
  have hid : manifest.chunkId = chunkId := N.path_injective hpath
  have hverify : verify sha256 (N.content chunkId) manifest.sizeBytes manifest.sha256 = .ok () := by
    rw [verify_ok, hfits.sizeBytes, hfits.sha256, hid]
    exact ⟨rfl, rfl⟩
  have hexists : TransferOp.run sha256 (rawExists manifest.collectorId manifest.dataPath) s =
      (.ok true, s) := by rw [TransferOp.run, hread, Option.isSome_some]
  have hcontent : TransferOp.run sha256 (readRaw manifest.collectorId manifest.dataPath) s =
      (.ok (N.content chunkId), s) := by rw [TransferOp.run, hread, found]
  rw [PullCall.storeData, execAlone_bind (execAlone_io hexists), if_pos rfl,
    execAlone_bind (execAlone_io hcontent), hverify]
  rfl

theorem checkCollector_ok {collectorId : String} (hid : isCollectorId collectorId = true) :
    checkCollector collectorId = pure () := if_pos hid

/-- A chunk whose data the raw tree holds is acknowledged again. -/
theorem acknowledges_stored (hs : s.Provenance N sha256) (hseen : s.StoredAsSeen)
    (hid : isCollectorId N.collectorId = true) (call : PullCall) {path : RelPath}
    {manifest : ChunkManifest} (hread : s.pull.mirrorManifests.read path = some (some manifest))
    (hdata : s.pull.rawData.read (toLex (manifest.collectorId, manifest.dataPath)) ≠ none) :
    Acknowledges sha256 call s path manifest := by
  have hm : manifest ∈ s.copied := (hs.mirrorManifests _ _ hread manifest rfl).1
  have hcollector : isCollectorId manifest.collectorId = true := by
    rw [(hs.fits manifest (hs.copies hm)).collectorId, hid]
  obtain ⟨s', hstore⟩ := @storeManifest_ok sha256 _ hseen _ hm
  have hmirror : TransferOp.run sha256 (readMirrorManifest path) s =
      (.ok (some manifest), s) := by rw [TransferOp.run, hread, found]
  let ack : Ack := ⟨manifest.chunkId, manifest.sha256, call.durableAt path⟩
  refine ⟨⟨manifest, ack, false⟩,
    (TransferOp.run sha256 (writeMirrorAck (ackName manifest.chunkId) ack) s').2, ?_,
    Folder.read_write_self _ _ _⟩
  rw [PullCall.ingestChunk, execAlone_bind (execAlone_io hmirror)]
  show execAlone sha256 (checkCollector manifest.collectorId >>= _) s = _
  rw [checkCollector_ok hcollector, execAlone_bind rfl, execAlone_bind (storeData_ok hs call hm hdata),
    execAlone_bind hstore, execAlone_bind (execAlone_io rfl)]
  rfl

/-- Runs in which no manifest is rewritten after a pull has copied it: every pull of a chunk
finds the local manifest as it was stored, and the chunk can always be acknowledged. -/
theorem republished_acknowledged (hsha : N.CollisionFree sha256) {crew : TransferCrew}
    (hreach : Crew.Reaches (KeepsCopies sha256) (N.May sha256 encode) ⟨{}, []⟩ crew) :
    crew.store.StoredAsSeen ∧
      (isCollectorId N.collectorId = true → ∀ call path manifest,
        crew.store.pull.mirrorManifests.read path = some (some manifest) →
        crew.store.pull.rawData.read (toLex (manifest.collectorId, manifest.dataPath)) ≠ none →
          Acknowledges sha256 call crew.store path manifest) := by
  obtain ⟨hs, hversion⟩ := TransferCrew.invariant (J := OneVersion) hsha (fun _ _ _ _ h => h.2)
    (fun _ _ _ _ hinv _ hop h => h.step hinv hop) hreach oneVersion_empty
  have hseen := hversion.storedAsSeen hs
  exact ⟨hseen, fun hid call path manifest hread hdata =>
    acknowledges_stored hs hseen hid call hread hdata⟩

/-! A gap that is rolled over midnight. The process ends between the CLOSED event of the day
and the write of the state file, and the next boot publishes the event again. -/

namespace Sample

def openedGap : GapEvent where
  gapId := "gap-1"
  state := .opened
  reason := .connectionLost
  collectorId := "tokyo01"
  exchangeSymbols := ["BTCUSDT"]
  observedAtRealtimeNs := 500

def gapWrite (event : GapEvent) (createdAt : Int) : GapWrite := ⟨event, "a", "a", createdAt⟩

/-- Every artifact of the sample has the same bytes. -/
def gapNaming : Naming where
  collectorId := "tokyo01"
  utcDate := fun _ => 0
  writerGroup := fun _ => .control
  fileName := fun chunkId => chunkId ++ ".gap.json"
  contentType := fun _ => .gapJson
  content := fun _ => content
  distinct := by
    intro a b h
    simp only [RelPath.manifestName_gapJson, Prod.mk.injEq, true_and] at h
    exact (String.append_left_inj _).mp h

theorem gapCollisionFree : gapNaming.CollisionFree digest :=
  fun data _ h => collisionFree data "" h

def publishAt (event : GapEvent) (createdAt : Int) : TransferProgram Unit :=
  publishGap digest (fun _ => content) (gapWrite event createdAt) createdAt

theorem mayPublish (event : GapEvent) (createdAt : Int) (hcollector : event.collectorId = "tokyo01")
    (hdate : event.utcDate = 0) {s : TransferFiles} :
    gapNaming.May digest (fun _ => content) s (publishAt event createdAt) := by
  have hdrafts : gapNaming.Drafts (gapWrite event createdAt).draft content :=
    { collectorId := hcollector
      utcDate := hdate
      writerGroup := rfl
      dataPath := congrArg (fun utcDate => RelPath.mk (chunkFolders utcDate .control) _) hdate
      contentType := rfl
      content := rfl }
  exact .gap hdrafts

def rolledClosed : GapEvent := openedGap.closedAtEndOf 0

def opened : TransferFiles := runAlone (publishAt openedGap 1) {}

def rolled : TransferFiles := runAlone (publishAt rolledClosed 86400000001) opened

/-- The process ends before the state file is written, and the next boot publishes again, with
another time in the manifest, before a pull comes. -/
def rolledTwice : TransferFiles := runAlone (publishAt rolledClosed 86460000001) rolled

def rolledTwicePulled : TransferFiles := runAlone (runPull digest pullCall) rolledTwice

def rolledAndPulled : TransferFiles := runAlone (runPull digest pullCall) rolled

def rolledAgain : TransferFiles := runAlone (publishAt rolledClosed 86460000001) rolledAndPulled

def pulledAgain : TransferFiles := runAlone pullReady rolledAgain

section Reached
variable {good : TransferOp → TransferFiles → Bool}
  {sem : (op : TransferOp) → TransferFiles → op.Answer → TransferFiles → Prop}
  (hsem : ∀ op s, good op s = true →
    sem op s (TransferOp.run digest op s).1 (TransferOp.run digest op s).2)
include hsem

theorem reaches_rolled
    (hopen : Crew.Meets (TransferOp.run digest) good 60 (publishAt openedGap 1) {} = true)
    (hroll : Crew.Meets (TransferOp.run digest) good 60 (publishAt rolledClosed 86400000001) opened
      = true) :
    ∃ tasks, Crew.Reaches sem (gapNaming.May digest fun _ => content) ⟨{}, []⟩ ⟨rolled, tasks⟩ := by
  have hstart : Crew.Reaches sem (gapNaming.May digest fun _ => content) ⟨{}, []⟩ ⟨{}, []⟩ := .refl
  obtain ⟨_, h⟩ := reaches_runAlone hsem (mayPublish openedGap 1 rfl (by decide)) hopen hstart
  exact reaches_runAlone hsem (mayPublish rolledClosed 86400000001 rfl (by decide)) hroll h

theorem reaches_rolledTwicePulled
    (hopen : Crew.Meets (TransferOp.run digest) good 60 (publishAt openedGap 1) {} = true)
    (hroll : Crew.Meets (TransferOp.run digest) good 60 (publishAt rolledClosed 86400000001) opened
      = true)
    (hagain : Crew.Meets (TransferOp.run digest) good 60 (publishAt rolledClosed 86460000001) rolled
      = true)
    (hpull : Crew.Meets (TransferOp.run digest) good 60 (runPull digest pullCall) rolledTwice = true) :
    ∃ tasks, Crew.Reaches sem (gapNaming.May digest fun _ => content) ⟨{}, []⟩
      ⟨rolledTwicePulled, tasks⟩ := by
  obtain ⟨_, h⟩ := reaches_rolled hsem hopen hroll
  obtain ⟨_, h⟩ := reaches_runAlone hsem (mayPublish rolledClosed 86460000001 rfl (by decide)) hagain
    h
  exact reaches_runAlone hsem (.pull pullCall) hpull h

end Reached

theorem reaches_pulledAgain : ∃ tasks, Crew.Reaches (Sem digest)
    (gapNaming.May digest fun _ => content) ⟨{}, []⟩ ⟨pulledAgain, tasks⟩ := by
  obtain ⟨_, h⟩ := reaches_rolled sem_done (meets_true _ _) (meets_true _ _)
  obtain ⟨_, h⟩ := reaches_runAlone sem_done (.pull pullCall) (meets_true _ _) h
  obtain ⟨_, h⟩ := reaches_runAlone sem_done (mayPublish rolledClosed 86460000001 rfl (by decide))
    (meets_true _ _) h
  exact reaches_runAlone sem_done .pullReady (meets_true _ _) h

/-- The manifest file of the CLOSED event. -/
def rolledPath : RelPath := (gapWrite rolledClosed 86400000001).draft.dataPath.manifestPath

end Sample

theorem republished_acknowledged_sample :
    Sample.rolledTwicePulled.published.length = 3 ∧ Sample.rolledTwicePulled.copied.length = 2 ∧
      Sample.rolledTwicePulled.StoredAsSeen := by
  refine ⟨by decide +kernel, by decide +kernel, ?_⟩
  have hsem : ∀ op s, rewritesNoCopy op s = true → KeepsCopies Sample.digest op s
      (TransferOp.run Sample.digest op s).1 (TransferOp.run Sample.digest op s).2 :=
    fun op s hgood => ⟨hgood, Sem.done op s⟩
  obtain ⟨tasks, h⟩ := Sample.reaches_rolledTwicePulled hsem (by decide +kernel) (by decide +kernel)
    (by decide +kernel) (by decide +kernel)
  exact (republished_acknowledged Sample.gapCollisionFree h).1

/-- The puller meets a second manifest of an artifact that it has stored. -/
theorem republished_conflicts :
    ∃ crew : TransferCrew,
      Crew.Reaches (Sem Sample.digest) (Sample.gapNaming.May Sample.digest fun _ => Sample.content)
        ⟨{}, []⟩ crew ∧
        ¬ crew.store.StoredAsSeen ∧
        ∃ path ∈ crew.store.pull.mirrorManifests.names,
          raised (execAlone Sample.digest (Sample.pullCall.ingestChunk Sample.digest path)
            crew.store).1 = some (.valueError "conflicting local manifest") := by
  obtain ⟨tasks, h⟩ := Sample.reaches_pulledAgain
  have hstored : (Sample.pulledAgain.copied.all fun manifest =>
      (Sample.pulledAgain.pull.rawManifests.read
        (toLex (manifest.collectorId, manifest.manifestPath))).all fun stored =>
          stored = some manifest) = false := by decide +kernel
  have hlisted : Sample.rolledPath ∈ Sample.pulledAgain.pull.mirrorManifests.names := by
    decide +kernel
  have hraised : raised (execAlone Sample.digest
      (Sample.pullCall.ingestChunk Sample.digest Sample.rolledPath) Sample.pulledAgain).1 =
        some (.valueError "conflicting local manifest") := by decide +kernel
  refine ⟨⟨Sample.pulledAgain, tasks⟩, h, fun hseen => ?_, Sample.rolledPath, hlisted, hraised⟩
  refine Bool.false_ne_true (hstored.symm.trans (List.all_eq_true.mpr fun manifest hm => ?_))
  rw [Option.all_eq_true]
  intro stored hread
  exact decide_eq_true (hseen manifest hm stored hread)

end MiryFormal
