import MiryFormal.Transfer.NoLoss

/-!
# A published day can be normalised

`_publish_complete_day` looks at the data files of a day and not at the manifests beside them,
which the same run may have failed to write. Where they were there, the normaliser finds what
it needs ever after.
-/

namespace MiryFormal

set_option autoImplicit false

open Program TransferOp TransferFiles

/-- `DayNormalizer._load_chunk_manifests` -/
def loadChunkManifests (collectorId : String) (utcDate : Int) :
    List ChunkRef → TransferProgram (List ChunkManifest)
  | [] => pure []
  | chunk :: chunks => do
      match ← io (readRawManifest collectorId chunk.manifestPath) with
      | none => raise .osError
      | some content =>
          let manifest ← validateManifest content
          if manifest.asRef ≠ chunk then raise (.valueError "day/chunk manifest disagreement")
          else if manifest.collectorId ≠ collectorId then
            raise (.valueError "chunk collector mismatch")
          else if manifest.utcDate ≠ utcDate then raise (.valueError "chunk UTC date mismatch")
          else if manifest.dataPath.folders ≠ chunkFolders utcDate manifest.writerGroup then
            raise (.valueError "chunk path/writer mismatch")
          else do
            let later ← loadChunkManifests collectorId utcDate chunks
            pure (manifest :: later)

/-- The raw tree has the data of the listed chunk, and its manifest. -/
def HoldsChunk (sha256 : Bytes → String) (s : TransferFiles) (collectorId : String)
    (chunk : ChunkRef) : Prop :=
  (∃ content, s.pull.rawData.read (toLex (collectorId, chunk.dataPath)) = some content ∧
    content.length = chunk.sizeBytes ∧ sha256 content = chunk.sha256) ∧
    ∃ manifest : ChunkManifest,
      s.pull.rawManifests.read (toLex (collectorId, chunk.manifestPath)) = some (some manifest) ∧
        manifest.asRef = chunk

/-- The day can be normalised: its chunks are there, and the manifests load. -/
def Normalizable (sha256 : Bytes → String) (s : TransferFiles) (day : DayManifest) : Prop :=
  (∀ chunk ∈ day.chunks, HoldsChunk sha256 s day.collectorId chunk) ∧
    ∃ manifests, execAlone sha256 (loadChunkManifests day.collectorId day.utcDate day.chunks) s =
      (.ok manifests, s)

/-- When a day is published, the local manifests of its chunks are there. -/
def manifestsStored (op : TransferOp) (s : TransferFiles) : Bool :=
  match op with
  | .writeRawSealed collectorId day => day.chunks.all fun chunk =>
      (s.pull.rawManifests.read (toLex (collectorId, chunk.manifestPath))).isSome
  | _ => true

/-- An operation that meets the condition. -/
def PublishesStored (sha256 : Bytes → String) (op : TransferOp) (s : TransferFiles)
    (answer : op.Answer) (s' : TransferFiles) : Prop :=
  manifestsStored op s = true ∧ Sem sha256 op s answer s'

variable {N : Naming} {sha256 : Bytes → String} {encode : GapEvent → Bytes} {s s' : TransferFiles}

theorem rawSealed_run {op : TransferOp}
    (hop : ∀ collectorId day, op ≠ writeRawSealed collectorId day) :
    (TransferOp.run sha256 op s).2.pull.rawSealed = s.pull.rawSealed := by
  have hfound : ∀ {β : Type} (content : Option β) (change : β → TransferFiles),
      (∀ c, (change c).pull.rawSealed = s.pull.rawSealed) →
        (ifFound content s change).2.pull.rawSealed = s.pull.rawSealed :=
    fun content change h => ifFound_files (P := fun t => t.pull.rawSealed = s.pull.rawSealed) rfl
      fun c _ => h c
  cases op with
  | writeRawSealed collectorId day => exact absurd rfl (hop collectorId day)
  | promote | replacePartial =>
    exact ifVerified_files sha256 (P := fun t => t.pull.rawSealed = s.pull.rawSealed) rfl
      fun _ _ _ => rfl
  | _ => first | rfl | exact hfound _ _ fun _ => rfl

theorem rawSealed_sem {op : TransferOp}
    (hop : ∀ collectorId day, op ≠ writeRawSealed collectorId day)
    {answer : op.Answer} (hsem : Sem sha256 op s answer s') :
    s'.pull.rawSealed = s.pull.rawSealed := by
  cases hsem with
  | done => exact rawSealed_run hop
  | failed => rfl
  | failedLate => exact rawSealed_run hop
  | tornAppend => rfl
  | partialSync => rfl

/-- Every published day lists chunks that the raw tree holds with their manifests. -/
def DaysStored (N : Naming) (s : TransferFiles) : Prop :=
  s.pull.rawSealed.All fun _ day => s.ListsRefs N day ∧
    ∀ chunk ∈ day.chunks, s.InRaw N chunk.chunkId ∧ s.HasLocal N chunk.chunkId

theorem daysStored_step (hsha : N.CollisionFree sha256) {op : TransferOp} {answer : op.Answer}
    (hs : s.Provenance N sha256) (hop : N.Allows sha256 op s) (hgood : manifestsStored op s = true)
    (hsem : Sem sha256 op s answer s') (h : DaysStored N s) : DaysStored N s' := by
  have hlater := (kept_sem hsha hs hop hsem).2
  have hbefore : s.pull.rawSealed.All fun _ day => s'.ListsRefs N day ∧
      ∀ chunk ∈ day.chunks, s'.InRaw N chunk.chunkId ∧ s'.HasLocal N chunk.chunkId := by
    refine h.mono fun _ day hday => ⟨hlater.listsRefs hday.1, fun chunk hm => ?_⟩
    exact ⟨hlater.inRaw (hday.2 chunk hm).1, hlater.hasLocal (hday.2 chunk hm).2⟩
  by_cases hwrite : ∃ collectorId day, op = writeRawSealed collectorId day
  · obtain ⟨collectorId, day, rfl⟩ := hwrite
    obtain ⟨rfl, hlists, hraw⟩ := hop
    have hday : s'.ListsRefs N day ∧
        ∀ chunk ∈ day.chunks, s'.InRaw N chunk.chunkId ∧ s'.HasLocal N chunk.chunkId := by
      refine ⟨hlater.listsRefs hlists, fun chunk hm => ⟨hlater.inRaw (hraw chunk hm), ?_⟩⟩
      refine hlater.hasLocal ?_
      obtain ⟨manifest, hmanifest, rfl, -⟩ := hlists.2 chunk hm
      have hlocal := List.all_eq_true.mp hgood manifest.asRef hm
      rw [(hs.fits manifest hmanifest).manifestPath] at hlocal
      exact Option.isSome_iff_ne_none.mp hlocal
    cases hsem with
    | done | failedLate => exact hbefore.write hday
    | failed => exact hbefore
  · rw [DaysStored, rawSealed_sem (fun collectorId day heq => hwrite ⟨collectorId, day, heq⟩) hsem]
    exact hbefore

theorem holdsChunk_of_stored (hs : s.Provenance N sha256) {collectorId : String}
    (hcollector : collectorId = N.collectorId) {manifest : ChunkManifest}
    (hm : manifest ∈ s.published) (hraw : s.InRaw N manifest.chunkId)
    (hlocal : s.HasLocal N manifest.chunkId) :
    HoldsChunk sha256 s collectorId manifest.asRef := by
  have hfits := hs.fits manifest hm
  constructor
  · refine ⟨N.content manifest.chunkId, ?_, hfits.sizeBytes.symm, hfits.sha256.symm⟩
    rw [hcollector, ← hfits.collectorId]
    exact hs.holdsRaw hm hraw
  · obtain ⟨stored, hread, heq⟩ := hs.holdsManifest hm hlocal
    exact ⟨stored, by rw [hcollector, ← hfits.collectorId]; exact hread, heq⟩

/-- The manifest beside a chunk of the day passes every check of the normaliser. -/
theorem load_ok (hs : s.Provenance N sha256) {collectorId : String}
    (hcollector : collectorId = N.collectorId) {utcDate : Int} {chunks : List ChunkRef}
    (hchunks : ∀ chunk ∈ chunks, s.IsRef utcDate chunk ∧ HoldsChunk sha256 s collectorId chunk) :
    ∃ manifests, execAlone sha256 (loadChunkManifests collectorId utcDate chunks) s =
      (.ok manifests, s) := by
  induction chunks with
  | nil => exact ⟨[], rfl⟩
  | cons chunk chunks ih =>
    obtain ⟨later, hlater⟩ := ih fun other hm => hchunks other (List.mem_cons_of_mem _ hm)
    obtain ⟨⟨published, hm, rfl, hdate⟩, -, manifest, hread, heq⟩ :=
      hchunks chunk List.mem_cons_self
    have hfits := hs.fits published hm
    obtain ⟨stored, hstored, hcontent, -⟩ := hs.rawManifests _ _ hread
    cases Option.some.inj hcontent
    have hmanifest := hs.fits manifest (hs.copies hstored)
    have hid : manifest.chunkId = published.chunkId := congrArg ChunkRef.chunkId heq
    have hutc : manifest.utcDate = utcDate := by
      rw [hmanifest.utcDate, hid, ← hfits.utcDate, hdate]
    have hfolders : manifest.dataPath.folders = chunkFolders utcDate manifest.writerGroup := by
      rw [hmanifest.dataPath, Naming.path, ← hutc, hmanifest.utcDate, hmanifest.writerGroup]
    have hcol : manifest.collectorId = collectorId := hmanifest.collectorId.trans hcollector.symm
    refine ⟨manifest :: later, ?_⟩
    have hrun : execAlone sha256 (io (readRawManifest collectorId published.manifestPath)) s =
        (.ok (some (some manifest)), s) := execAlone_io (by rw [TransferOp.run, hread])
    rw [loadChunkManifests, execAlone_bind hrun]
    show execAlone sha256 (validateManifest (some manifest) >>= _) s = _
    rw [execAlone_bind (show execAlone sha256 (validateManifest (some manifest)) s =
      (.ok manifest, s) from rfl), if_neg (not_not.mpr heq), if_neg (not_not.mpr hcol),
      if_neg (not_not.mpr hutc), if_neg (not_not.mpr hfolders), execAlone_bind hlater]
    rfl

/-- Runs in which a day is only published when the local manifests of its chunks are there:
whatever fails in between, a published day can be normalised. -/
theorem publishedDay_normalizable (hsha : N.CollisionFree sha256) {crew : TransferCrew}
    (hreach : Crew.Reaches (PublishesStored sha256) (N.May sha256 encode) ⟨{}, []⟩ crew)
    {key : String ×ₗ Int} {day : DayManifest}
    (hday : crew.store.pull.rawSealed.read key = some day) :
    Normalizable sha256 crew.store day := by
  obtain ⟨hs, hdays⟩ := TransferCrew.invariant (J := DaysStored N) hsha (fun _ _ _ _ h => h.2)
    (fun _ _ _ _ hinv hop hdone h => daysStored_step hsha hinv hop hdone.1 hdone.2 h) hreach .empty
  obtain ⟨⟨hcollector, hrefs⟩, hstored⟩ := hdays key day hday
  have hchunks : ∀ chunk ∈ day.chunks, HoldsChunk sha256 crew.store day.collectorId chunk := by
    intro chunk hm
    obtain ⟨manifest, hmanifest, rfl, -⟩ := hrefs chunk hm
    exact holdsChunk_of_stored hs hcollector hmanifest (hstored _ hm).1 (hstored _ hm).2
  exact ⟨hchunks, load_ok hs hcollector fun chunk hm => ⟨hrefs chunk hm, hchunks chunk hm⟩⟩

/-! A day of one chunk: published with its manifest, and published without it. -/

namespace Sample

def sealedAt : Int := 1786406600000000

def sealedDay : TransferFiles := runAlone (sealDay "tokyo01" 20675 sealedAt) finished

def published : TransferFiles := runAlone (runPull digest pullCall) sealedDay

/-- The disk is full whenever a local manifest is written. -/
def runFull (op : TransferOp) (s : TransferFiles) : op.Answer × TransferFiles :=
  match op with
  | .writeRawManifest _ _ _ => (.error .osError, s)
  | op => TransferOp.run digest op s

def publishedBare : TransferFiles :=
  (runPull digest pullCall).cut (fun op s => .ok (runFull op s)) 60 sealedDay

theorem sem_runFull (op : TransferOp) (s : TransferFiles) :
    Sem digest op s (runFull op s).1 (runFull op s).2 := by
  cases op with
  | writeRawManifest collectorId path manifest => exact .failed _ s
  | _ => exact .done _ s

/-- Up to the publication nothing fails. -/
theorem reaches_sealedDay {good : TransferOp → TransferFiles → Bool}
    {sem : (op : TransferOp) → TransferFiles → op.Answer → TransferFiles → Prop}
    (hsem : ∀ op s, good op s = true →
      sem op s (TransferOp.run digest op s).1 (TransferOp.run digest op s).2)
    (hfinish : Crew.Meets (TransferOp.run digest) good 60 (session.finishAndRecord digest) {} = true)
    (hseal : Crew.Meets (TransferOp.run digest) good 60 (sealDay "tokyo01" 20675 sealedAt) finished
      = true) :
    ∃ tasks, Crew.Reaches sem (naming.May digest fun _ => []) ⟨{}, []⟩ ⟨sealedDay, tasks⟩ := by
  have hstart : Crew.Reaches sem (naming.May digest fun _ => []) ⟨{}, []⟩ ⟨{}, []⟩ := .refl
  obtain ⟨_, h⟩ := reaches_runAlone hsem (.finish drafts) hfinish hstart
  exact reaches_runAlone hsem (.sealDay 20675 sealedAt) hseal h

end Sample

theorem publishedDay_normalizable_sample :
    (Sample.published.pull.rawSealed.read (toLex ("tokyo01", 20675))).isSome = true ∧
      ∀ key day, Sample.published.pull.rawSealed.read key = some day →
        Normalizable Sample.digest Sample.published day := by
  refine ⟨by decide +kernel, fun key day hday => ?_⟩
  have hsem : ∀ op s, manifestsStored op s = true → PublishesStored Sample.digest op s
      (TransferOp.run Sample.digest op s).1 (TransferOp.run Sample.digest op s).2 :=
    fun op s hgood => ⟨hgood, Sem.done op s⟩
  obtain ⟨_, h⟩ := Sample.reaches_sealedDay hsem (by decide +kernel) (by decide +kernel)
  obtain ⟨tasks, hpublished⟩ := Sample.reaches_runAlone hsem (.pull Sample.pullCall)
    (by decide +kernel) h
  exact publishedDay_normalizable Sample.collisionFree hpublished hday

/-- The disk is full when the manifest of a promoted chunk is written; the same run of the
puller publishes the day. -/
theorem publishedDay_without_manifest :
    ∃ crew : TransferCrew,
      Crew.Reaches (Sem Sample.digest) (Sample.naming.May Sample.digest fun _ => []) ⟨{}, []⟩ crew ∧
        ∃ key day, crew.store.pull.rawSealed.read key = some day ∧
          ¬ Normalizable Sample.digest crew.store day := by
  obtain ⟨_, h⟩ := Sample.reaches_sealedDay Sample.sem_done (Sample.meets_true _ _)
    (Sample.meets_true _ _)
  obtain ⟨tasks, hbare⟩ := h.launch_cut (fun op s (_ : true = true) => Sample.sem_runFull op s)
    (.pull Sample.pullCall) (Crew.meets_of_forall (fun _ _ => rfl) 60 _ _)
  refine ⟨⟨Sample.publishedBare, tasks⟩, hbare, toLex ("tokyo01", 20675), ?_⟩
  have hlisted : (Sample.publishedBare.pull.rawSealed.read (toLex ("tokyo01", 20675))).map
      (fun day => day.chunks.length) = some 1 := by decide +kernel
  have hbareManifests : Sample.publishedBare.pull.rawManifests.names = [] := by decide +kernel
  obtain ⟨day, hday, hlength⟩ := Option.map_eq_some_iff.mp hlisted
  obtain ⟨chunk, hchunks⟩ := List.length_eq_one_iff.mp hlength
  refine ⟨day, hday, fun hnormalizable => ?_⟩
  have hm : chunk ∈ day.chunks := by
    rw [hchunks]
    exact List.mem_cons_self
  obtain ⟨-, manifest, hmanifest, -⟩ := hnormalizable.1 chunk hm
  have hnone := Folder.names_eq_nil.mp hbareManifests (toLex (day.collectorId, chunk.manifestPath))
  exact Option.some_ne_none _ (hmanifest.symm.trans hnone)

end MiryFormal
