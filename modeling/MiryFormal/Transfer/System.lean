import MiryFormal.Transfer.Provenance

/-!
# The programs keep to what the operations may do

One lemma for each program of the edge and of the pipeline, whatever runs beside it.
-/

namespace MiryFormal

set_option autoImplicit false

open Program TransferOp TransferFiles

/-- No other bytes have the hash of a published chunk. -/
def Naming.CollisionFree (N : Naming) (sha256 : Bytes → String) : Prop :=
  ∀ content chunkId, sha256 content = sha256 (N.content chunkId) → content = N.content chunkId

variable {N : Naming} {sha256 : Bytes → String} (hsha : N.CollisionFree sha256)

/-- The discipline of both sides. -/
def Naming.discipline : Discipline TransferOp TransferOp.Answer TransferFiles where
  sem := Sem sha256
  rely := Later N
  inv := fun s => Provenance N s sha256
  allowed := N.Allows sha256
  keeps := fun hinv hop hsem => (kept_sem hsha hinv hop hsem).1

/-! ## Rules -/

/-- Started in `s`, a program returns with `K` or raises. -/
abbrev Post {α : Type} (N : Naming) (sha256 : Bytes → String) (K : α → TransferFiles → Prop)
    (s : TransferFiles) (result : Except Failure α) (s' : TransferFiles) : Prop :=
  Kept N sha256 s s' ∧ ∀ a, result = .ok a → K a s'

/-- Whatever else runs, the program keeps to the discipline and returns with `K`. -/
abbrev Fulfils {α : Type} (K : α → TransferFiles → Prop) (p : TransferProgram α)
    (s : TransferFiles) : Prop :=
  (N.discipline hsha).Upholds (Post N sha256 K s) p s

variable {hsha}

namespace Fulfils
variable {α β : Type} {K : α → TransferFiles → Prop} {R : β → TransferFiles → Prop}
  {s : TransferFiles}

theorem ret {a : α} (hs : s.Provenance N sha256) (ha : K a s) : Fulfils hsha K (ret a) s :=
  ⟨.self hs, fun _ h => by cases h; exact ha⟩

theorem raise {e : Failure} (hs : s.Provenance N sha256) : Fulfils hsha K (raise e) s :=
  ⟨.self hs, fun _ h => by cases h⟩

theorem bind {p : TransferProgram α} {f : α → TransferProgram β} (hp : Fulfils hsha K p s)
    (hf : ∀ a s', Later N s s' → s'.Provenance N sha256 → K a s' → Fulfils hsha R (f a) s') :
    Fulfils hsha R (p >>= f) s := by
  refine Discipline.Upholds.bind hp ?_ ?_
  · rintro a s' ⟨hkept, hK⟩
    refine (hf a s' hkept.2 hkept.1 (hK a rfl)).mono ?_
    rintro result s'' ⟨hkept', hR⟩
    exact ⟨⟨hkept'.1, hkept.2.trans hkept'.2⟩, hR⟩
  · rintro e s' ⟨hkept, -⟩
    exact ⟨hkept, fun _ h => by cases h⟩

theorem io {op : TransferOp} {K : op.Value → TransferFiles → Prop}
    (h : ∀ s₁, Later N s s₁ → s₁.Provenance N sha256 → N.Allows sha256 op s₁ ∧
      ∀ value, (TransferOp.run sha256 op s₁).1 = .ok value → K value (TransferOp.run sha256 op s₁).2) :
    Fulfils hsha K (Program.io op) s := by
  refine Discipline.upholds_io fun s₁ hlater hinv => ?_
  obtain ⟨hallowed, hK⟩ := h s₁ hlater hinv
  refine ⟨hallowed, fun r s₂ hsem => ?_⟩
  have hkept := kept_sem hsha hinv hallowed hsem
  refine ⟨⟨hkept.1, hlater.trans hkept.2⟩, ?_⟩
  intro value hr
  cases hsem with
  | done => exact hK value hr
  | failed | failedLate | tornAppend | partialSync => cases hr

theorem attempt {p : TransferProgram α} (hp : Fulfils hsha K p s) :
    Fulfils hsha (fun result s => ∀ a, result = .ok a → K a s) p.attempt s := by
  refine (Discipline.Upholds.attempt hp).mono ?_
  rintro result s' ⟨r, rfl, hkept, hK⟩
  exact ⟨hkept, fun a h => by cases h; exact hK⟩

/-- A loop with an invariant of its accumulator. -/
theorem foldlM {γ : Type} {items : List γ} {f : α → γ → TransferProgram α}
    (hstep : ∀ a s, ∀ item ∈ items, s.Provenance N sha256 → K a s → Fulfils hsha K (f a item) s)
    (hs : s.Provenance N sha256) {a : α} (ha : K a s) : Fulfils hsha K (items.foldlM f a) s := by
  induction items generalizing a s with
  | nil => exact ret hs ha
  | cons item items ih =>
    rw [List.foldlM_cons]
    refine bind (hstep a s item List.mem_cons_self hs ha) fun a s' _ hs' ha' => ?_
    exact ih (fun a s later hm => hstep a s later (List.mem_cons_of_mem _ hm)) hs' ha'

/-- A loop that relies on what never goes away. -/
theorem forM {γ : Type} {items : List γ} {f : γ → TransferProgram Unit} {J : TransferFiles → Prop}
    (hJ : ∀ s s', Later N s s' → J s → J s')
    (hstep : ∀ s, ∀ item ∈ items, s.Provenance N sha256 → J s →
      Fulfils hsha (fun _ _ => True) (f item) s)
    (hs : s.Provenance N sha256) (hstart : J s) :
    Fulfils hsha (fun _ _ => True) (items.forM f) s := by
  induction items generalizing s with
  | nil => exact ret hs trivial
  | cons item items ih =>
    refine bind (hstep s item List.mem_cons_self hs hstart) fun _ s' hlater hs' _ => ?_
    exact ih (fun s later hm => hstep s later (List.mem_cons_of_mem _ hm)) hs'
      (hJ s s' hlater hstart)

/-- A program that calls free operations only. -/
theorem of_each {p : TransferProgram α} (hp : p.Each Naming.Free) (hs : s.Provenance N sha256) :
    Fulfils hsha (fun _ _ => True) p s := by
  suffices h : ∀ s' : TransferFiles, Kept N sha256 s s' →
      (N.discipline hsha).Upholds (Post N sha256 (fun _ _ => True) s) p s' from h s (.self hs)
  induction p with
  | ret a => exact fun s' hkept => ⟨hkept, fun _ _ => trivial⟩
  | raise e => exact fun s' hkept => ⟨hkept, fun _ _ => trivial⟩
  | call op next ih =>
    intro s' hkept s₁ hlater hinv
    have hallowed := N.allows_of_free sha256 hp.1 s₁
    refine ⟨hallowed, fun r s₂ hsem => ih r (hp.2 r trivial) s₂ ?_⟩
    have hstep := kept_sem hsha hinv hallowed hsem
    exact ⟨hstep.1, hkept.2.trans (Later.trans hlater hstep.2)⟩

end Fulfils

/-! ## `apply_acks` -/

namespace ApplyCall
variable (call : ApplyCall)

theorem each_ackedManifestIn (chunkId name : String) (dates : List Int)
    (manifest : Option ChunkManifest) (errors : Nat) (events : List TransferEvent) :
    (call.ackedManifestIn chunkId name dates manifest errors events).Each Naming.Free := by
  induction dates generalizing manifest errors events with
  | nil => trivial
  | cons utcDate later ih =>
    unfold ackedManifestIn
    refine (Obeys.attempt (Each.io trivial)).bind fun content => ?_
    split
    · exact ih _ _ _
    · split
      · exact ih _ _ _
      · split
        · exact ih _ _ _
        · split
          · trivial
          · exact ih _ _ _

theorem each_ackedManifest (chunkId : String) (events : List TransferEvent) :
    (call.ackedManifest chunkId events).Each Naming.Free :=
  Obeys.bind (Each.io trivial) fun _ => call.each_ackedManifestIn _ _ _ _ _ _

theorem each_finishCall (progress : ApplyProgress) :
    (call.finishCall progress).Each Naming.Free := by
  refine Obeys.bind (Each.io trivial) fun _ => Obeys.bind ?_ fun _ => Obeys.bind ?_ fun _ => trivial
  · exact Obeys.bind (Each.io trivial) fun _ => Obeys.bind (Each.io trivial) fun _ =>
      Obeys.bind (Each.io trivial) fun _ => Each.io trivial
  · exact Obeys.forM fun _ _ => Each.io trivial

/-- What the scan has found was published. -/
abbrev Listed (manifests : List (String × ChunkManifest)) (s : TransferFiles) : Prop :=
  ListsOnly (· ∈ s.published) manifests

variable {call}

theorem Listed.later {manifests : List (String × ChunkManifest)} {s s' : TransferFiles}
    (h : Listed manifests s) (hlater : Later N s s') : Listed manifests s' :=
  fun chunkId manifest hget => ⟨(h chunkId manifest hget).1,
    hlater.published (h chunkId manifest hget).2⟩

theorem fulfils_readyManifests {s : TransferFiles} (hs : s.Provenance N sha256) :
    Fulfils hsha (fun scan s => Listed scan.manifests s) call.readyManifests s := by
  refine Fulfils.bind (Fulfils.of_each (Each.io trivial) hs) fun paths s _ hs _ => ?_
  refine Fulfils.foldlM (fun scan s path _ hs hlisted => ?_) hs (fun _ _ h => by cases h)
  have hread : Fulfils hsha (fun content s => ∀ manifest ∈ content, manifest ∈ s.published)
      (io (readManifest path)) s := by
    refine Fulfils.io fun s₁ _ hs₁ => ⟨trivial, fun content hcontent manifest hm => ?_⟩
    exact (hs₁.manifests path content (found_ok.mp hcontent) manifest hm).1
  refine Fulfils.bind hread.attempt fun result s hlater hs hresult => Fulfils.ret hs ?_
  refine ListsOnly.scanReady (hlisted.later hlater) fun manifest hm _ => ?_
  cases result with
  | ok content => exact hresult content rfl manifest hm
  | error e => cases hm

theorem fulfils_reject {K : ApplyProgress → TransferFiles → Prop} {progress : ApplyProgress}
    {name reason : String} {count : AckApplyResult → AckApplyResult} {event : TransferEvent}
    {s : TransferFiles} (hs : s.Provenance N sha256)
    (hK : ∀ s', Later N s s' → K { progress with
      events := progress.events ++ [event]
      result := count progress.result } s') :
    Fulfils hsha K (progress.reject name reason count event) s :=
  Fulfils.bind (Fulfils.of_each (Each.io trivial) hs) fun _ s' hlater hs' _ =>
    Fulfils.ret hs' (hK s' hlater)

theorem fulfils_acceptUnlisted {progress : ApplyProgress} {name : String} {ack : Ack}
    {s : TransferFiles} (hs : s.Provenance N sha256) (hlisted : Listed progress.manifests s) :
    Fulfils hsha (fun progress s => Listed progress.manifests s)
      (call.acceptUnlisted progress name ack) s := by
  refine Fulfils.bind (Fulfils.of_each (call.each_ackedManifest _ _) hs) fun known s₁ h₁ hs₁ _ => ?_
  obtain ⟨known, errors, events⟩ := known
  have hlisted₁ := hlisted.later h₁
  cases known with
  | none => exact fulfils_reject hs₁ fun s₂ h₂ => hlisted₁.later h₂
  | some manifest =>
    dsimp only
    split
    · exact fulfils_reject hs₁ fun s₂ h₂ => hlisted₁.later h₂
    · exact Fulfils.bind (Fulfils.of_each (Each.io trivial) hs₁) fun _ s₂ h₂ hs₂ _ =>
        Fulfils.ret hs₂ (hlisted₁.later h₂)

theorem fulfils_acceptListed {progress : ApplyProgress} {name : String} {ack : Ack}
    {manifest : ChunkManifest} {s : TransferFiles} (hs : s.Provenance N sha256)
    (hlisted : Listed progress.manifests s) (hm : manifest ∈ s.published)
    (hid : manifest.chunkId = ack.chunkId) (hack : s.Backed N ack) :
    Fulfils hsha (fun progress s => Listed progress.manifests s)
      (call.acceptListed progress name ack manifest) s := by
  have haccepted : ∀ s', Later N s s' → s'.Provenance N sha256 →
      Fulfils hsha (fun progress s => Listed progress.manifests s)
        (do
          io (unlinkAck name)
          pure { progress with
            manifests := KeyedDict.pop id ack.chunkId progress.manifests
            transactionPaths := progress.transactionPaths ++ [transactionName ack.chunkId] }) s' :=
    fun s' hlater hs' => Fulfils.bind (Fulfils.of_each (Each.io trivial) hs') fun _ s'' hlater' hs'' _ =>
      Fulfils.ret hs'' (ListsOnly.pop (hlisted.later (hlater.trans hlater')) _)
  refine Fulfils.bind (Fulfils.of_each (Each.io trivial) hs) fun present s₁ h₁ hs₁ _ => ?_
  split
  · refine Fulfils.bind (Fulfils.of_each (Obeys.attempt (Each.io trivial)) hs₁)
      fun content s₂ h₂ hs₂ _ => ?_
    dsimp only
    split
    · exact haccepted s₂ (h₁.trans h₂) hs₂
    · exact fulfils_reject hs₂ fun s₃ h₃ => hlisted.later ((h₁.trans h₂).trans h₃)
  · refine Fulfils.bind (K := fun _ _ => True) (Fulfils.io fun s₂ h₂ _ => ⟨?_, fun _ _ => trivial⟩)
      fun _ s₂ h₂ hs₂ _ => haccepted s₂ (h₁.trans h₂) hs₂
    have hlater := h₁.trans h₂
    exact ⟨hlater.published hm, hid.symm, hlater.backed hack⟩

theorem fulfils_acceptAck {progress : ApplyProgress} {name : String} {s : TransferFiles}
    (hlisted : Listed progress.manifests s) :
    Fulfils hsha (fun progress s => Listed progress.manifests s) (call.acceptAck progress name) s := by
  have hread : Fulfils hsha (fun content s => ∀ ack ∈ content, s.Backed N ack) (io (readAck name)) s := by
    refine Fulfils.io fun s₁ _ hs₁ => ⟨trivial, fun content hcontent ack hm => ?_⟩
    exact hs₁.acks name content (found_ok.mp hcontent) ack hm
  refine Fulfils.bind hread.attempt fun result s₁ h₁ hs₁ hresult => ?_
  have hlisted₁ := hlisted.later h₁
  cases hack : valid result with
  | none => exact fulfils_reject hs₁ fun s₂ h₂ => hlisted₁.later h₂
  | some ack =>
    have hbacked : s₁.Backed N ack := by
      cases result with
      | ok content => exact hresult content rfl ack hack
      | error e => cases hack
    dsimp only
    split
    · exact fulfils_reject hs₁ fun s₂ h₂ => hlisted₁.later h₂
    · cases hget : KeyedDict.get id ack.chunkId progress.manifests with
      | none =>
        exact fulfils_acceptUnlisted hs₁ hlisted₁
      | some manifest =>
        obtain ⟨hid, hm⟩ := hlisted₁ ack.chunkId manifest hget
        dsimp only
        split
        · exact fulfils_reject hs₁ fun s₂ h₂ => hlisted₁.later h₂
        · exact fulfils_acceptListed hs₁ hlisted₁ hm hid hbacked

theorem fulfils_sealedExists (utcDate : Int) {s : TransferFiles} :
    Fulfils hsha (fun isSealed s => isSealed = true → s.IsSealed utcDate)
      (io (sealedExists utcDate)) s := by
  refine Fulfils.io fun s₁ _ _ => ⟨trivial, fun isSealed hexists htrue => ?_⟩
  cases hexists
  exact Option.isSome_iff_ne_none.mp htrue

theorem fulfils_existsInSealedDay {manifest : ChunkManifest} {s : TransferFiles}
    (hs : s.Provenance N sha256) :
    Fulfils hsha (fun isSealed s => isSealed = true → s.IsSealed manifest.utcDate)
      (existsInSealedDay manifest) s := by
  refine Fulfils.bind (Fulfils.of_each (Each.io trivial) hs) fun present s₁ _ hs₁ _ => ?_
  split
  · exact fulfils_sealedExists manifest.utcDate
  · exact Fulfils.ret hs₁ (by simp)

theorem fulfils_retireManifest {manifest : ChunkManifest} {s : TransferFiles}
    (hs : s.Provenance N sha256) (hm : manifest ∈ s.published) :
    Fulfils hsha (fun _ _ => True) (retireManifest manifest) s := by
  refine Fulfils.bind (fulfils_existsInSealedDay hs) fun isSealed s₁ h₁ hs₁ hsealed => ?_
  split
  · rename_i htrue
    refine Fulfils.io fun s₂ h₂ _ => ⟨⟨manifest, ?_, rfl, ?_⟩, fun _ _ => trivial⟩
    · exact h₂.published (h₁.published hm)
    · exact h₂.isSealed (hsealed htrue)
  · refine Fulfils.bind (Fulfils.of_each (Each.io trivial) hs₁) fun present s₂ h₂ hs₂ _ => ?_
    split
    · refine Fulfils.io fun s₃ h₃ _ => ⟨⟨manifest, ?_, rfl, rfl⟩, fun _ _ => trivial⟩
      exact h₃.published (h₂.published (h₁.published hm))
    · exact Fulfils.ret hs₂ trivial

theorem fulfils_deleteData {manifest : ChunkManifest} {s : TransferFiles}
    (hs : s.Provenance N sha256) (hm : manifest ∈ s.published)
    (hraw : s.InRaw N manifest.chunkId) :
    Fulfils hsha (fun _ _ => True) (deleteData manifest) s := by
  refine Fulfils.bind (Fulfils.of_each (Each.io trivial) hs) fun present s₁ h₁ hs₁ _ => ?_
  split
  · refine Fulfils.io fun s₂ h₂ hs₂ => ⟨⟨manifest.chunkId, ?_, ?_⟩, fun _ _ => trivial⟩
    · exact (hs.fits manifest hm).dataPath
    · exact (h₁.trans h₂).inRaw hraw
  · exact Fulfils.ret hs₁ trivial

theorem fulfils_applyTransaction {progress : ApplyProgress} {name : String} {s : TransferFiles} :
    Fulfils hsha (fun _ _ => True) (call.applyTransaction progress name) s := by
  have hread : Fulfils hsha (fun content s => ∀ transaction ∈ content, s.Joins N transaction)
      (io (readTransaction name)) s := by
    refine Fulfils.io fun s₁ _ hs₁ => ⟨trivial, fun content hcontent transaction hm => ?_⟩
    exact hs₁.applying name content (found_ok.mp hcontent) transaction hm
  have hrejected : ∀ s' : TransferFiles, s'.Provenance N sha256 → ∀ reason count event,
      Fulfils hsha (fun _ _ => True) (progress.rejectTransaction name reason count event) s' :=
    fun s' hs' _ _ _ => Fulfils.of_each (Obeys.bind (Each.io trivial) fun _ => trivial) hs'
  refine Fulfils.bind hread.attempt fun result s₁ h₁ hs₁ hresult => ?_
  cases htransaction : valid result with
  | none => exact hrejected s₁ hs₁ _ _ _
  | some transaction =>
    have hjoins : s₁.Joins N transaction := by
      cases result with
      | ok content => exact hresult content rfl transaction htransaction
      | error e => cases htransaction
    dsimp only
    split
    · exact hrejected s₁ hs₁ _ _ _
    · refine Fulfils.bind (Fulfils.of_each (Each.io trivial) hs₁) fun _ s₂ h₂ hs₂ _ => ?_
      refine Fulfils.bind (Fulfils.of_each (Each.io trivial) hs₂) fun _ s₃ h₃ hs₃ _ => ?_
      have hjoins₃ := (h₂.trans h₃).joins hjoins
      refine Fulfils.bind (fulfils_retireManifest hs₃ hjoins₃.published) fun _ s₄ h₄ hs₄ _ => ?_
      have hjoins₄ := h₄.joins hjoins₃
      obtain ⟨_, _, _, _, hraw, _⟩ := hjoins₄.backed
      rw [hjoins₄.chunkId] at hraw
      exact Fulfils.bind (fulfils_deleteData hs₄ hjoins₄.published hraw) fun _ s₅ _ hs₅ _ =>
        Fulfils.ret hs₅ trivial

theorem fulfils_applyAcks (call : ApplyCall) {s : TransferFiles} (hs : s.Provenance N sha256) :
    Fulfils hsha (fun _ _ => True) call.applyAcks s := by
  refine Fulfils.bind (Fulfils.of_each (Each.io trivial) hs) fun ackPaths s₁ _ hs₁ _ => ?_
  refine Fulfils.bind (Fulfils.of_each (Each.io trivial) hs₁) fun paths s₂ _ hs₂ _ => ?_
  split
  · exact Fulfils.ret hs₂ trivial
  · refine Fulfils.bind (fulfils_readyManifests hs₂) fun scan s₃ _ hs₃ hlisted => ?_
    refine Fulfils.bind (K := fun progress s => Listed progress.manifests s)
      (Fulfils.foldlM (fun _ _ _ _ _ h => fulfils_acceptAck h) hs₃ hlisted)
      fun progress s₄ _ hs₄ _ => ?_
    refine Fulfils.bind (Fulfils.foldlM (K := fun _ _ => True)
      (fun _ _ _ _ _ _ => fulfils_applyTransaction) hs₄ trivial) fun progress s₅ _ hs₅ _ => ?_
    exact Fulfils.of_each (call.each_finishCall _) hs₅

end ApplyCall

/-! ## Publication -/

/-- The draft and the data are what the id names. -/
structure Naming.Drafts (N : Naming) (draft : ChunkDraft) (content : Bytes) : Prop where
  collectorId : draft.collectorId = N.collectorId
  utcDate : draft.utcDate = N.utcDate draft.chunkId
  writerGroup : draft.writerGroup = N.writerGroup draft.chunkId
  dataPath : draft.dataPath = N.path draft.chunkId
  contentType : draft.contentType = N.contentType draft.chunkId
  content : content = N.content draft.chunkId

theorem ChunkDraft.describe_ok {draft : ChunkDraft} {stored : Bytes} {manifest : ChunkManifest}
    (h : draft.describe sha256 stored = .ok manifest) :
    manifest.chunkId = draft.chunkId ∧ manifest.dataPath = draft.dataPath ∧
      manifest.collectorId = draft.collectorId ∧ manifest.contentType = draft.contentType ∧
      manifest.utcDate = draft.utcDate ∧ manifest.writerGroup = draft.writerGroup ∧
      manifest.sizeBytes = stored.length ∧ manifest.sha256 = sha256 stored := by
  unfold describe at h
  split at h
  · cases h
    exact ⟨rfl, rfl, rfl, rfl, rfl, rfl, rfl, rfl⟩
  · cases h

theorem fulfils_publish {draft : ChunkDraft} {content : Bytes} (hdraft : N.Drafts draft content)
    (hnamed : draft.Named) {s : TransferFiles} :
    Fulfils hsha (fun manifest s => manifest ∈ s.published) (draft.publish sha256 content) s := by
  have hplace : Fulfils hsha (fun _ s => s.Stored N draft.chunkId)
      (io (placeData draft.dataPath content)) s := by
    refine Fulfils.io fun s₁ _ _ => ⟨⟨draft.chunkId, hdraft.dataPath, hdraft.content⟩, ?_⟩
    intro _ _
    left
    show (s₁.edge.data.write _ _).read _ = _
    rw [hdraft.dataPath, Folder.read_write_self, hdraft.content]
  refine Fulfils.bind hplace fun _ s₁ _ hs₁ hstored => ?_
  have hread : Fulfils hsha (fun stored _ => stored = N.content draft.chunkId)
      (io (readData draft.dataPath)) s₁ := by
    refine Fulfils.io fun s₂ _ hs₂ => ⟨trivial, fun stored hfound => ?_⟩
    obtain ⟨chunkId, hpath, hcontent⟩ := hs₂.data _ _ (found_ok.mp hfound)
    rw [hcontent, N.path_injective (hdraft.dataPath.symm.trans hpath)]
  refine Fulfils.bind hread fun stored s₂ h₂ hs₂ heq => ?_
  cases hdescribe : draft.describe sha256 stored with
  | error e => exact Fulfils.raise hs₂
  | ok manifest =>
    obtain ⟨hid, hpath, hcollector, htype, hdate, hgroup, hsize, hhash⟩ :=
      ChunkDraft.describe_ok hdescribe
    have hfits : N.Fits sha256 manifest := by
      constructor
      · rw [hcollector, hdraft.collectorId]
      · rw [hdate, hid, hdraft.utcDate]
      · rw [hgroup, hid, hdraft.writerGroup]
      · rw [hpath, hid, hdraft.dataPath]
      · rw [hsize, hid, heq]
      · rw [hhash, hid, heq]
      · rw [htype, hid, hdraft.contentType]
      · rw [hpath, hid, htype, hnamed.fileName]
      · rw [hid]
        exact hnamed.proper
    have hwrite : Fulfils hsha (fun _ s => manifest ∈ s.published)
        (io (writeManifest manifest.manifestPath manifest)) s₂ := by
      refine Fulfils.io fun s₃ h₃ _ => ⟨⟨hfits, rfl, ?_⟩, ?_⟩
      · rw [hid]
        exact h₃.stored (h₂.stored hstored)
      · exact fun _ _ => List.mem_append_right _ (List.mem_singleton_self _)
    exact Fulfils.bind hwrite fun _ s₃ _ hs₃ hm => Fulfils.ret hs₃ hm

theorem fulfils_appendIndex {manifest : ChunkManifest} {s : TransferFiles}
    (hm : manifest ∈ s.published) :
    Fulfils hsha (fun _ _ => True) (io (appendIndex manifest.utcDate manifest.asRef)) s :=
  Fulfils.io fun _ h₁ _ => ⟨⟨manifest, h₁.published hm, rfl, rfl⟩, fun _ _ => trivial⟩

theorem fulfils_record {manifest : ChunkManifest} {s : TransferFiles}
    (hs : s.Provenance N sha256) (hm : manifest ∈ s.published) :
    Fulfils hsha (fun _ _ => True) (record manifest.utcDate manifest.asRef) s := by
  refine Fulfils.bind (Fulfils.of_each (Each.io trivial) hs) fun isSealed s₁ h₁ hs₁ _ => ?_
  split
  · exact Fulfils.raise hs₁
  · exact fulfils_appendIndex (h₁.published hm)

theorem fulfils_finishAndRecord {session : ChunkSession}
    (hsession : N.Drafts session.draft session.content) {s : TransferFiles}
    (hs : s.Provenance N sha256) :
    Fulfils hsha (fun _ _ => True) (session.finishAndRecord sha256) s := by
  have hfinish : Fulfils hsha (fun manifest s => manifest ∈ s.published)
      (session.finish sha256) s := by
    unfold ChunkSession.finish
    split
    · exact Fulfils.raise hs
    · exact fulfils_publish hsession session.draft_named
  exact Fulfils.bind hfinish fun _ _ _ hs₁ hm => fulfils_record hs₁ hm

theorem fulfils_generateAndRecord {utcDate : Int} {create : TransferProgram ChunkManifest}
    {s : TransferFiles}
    (hcreate : Fulfils hsha (fun manifest s => manifest ∈ s.published) create s) :
    Fulfils hsha (fun _ _ => True) (generateAndRecord utcDate create) s := by
  refine Fulfils.bind hcreate fun manifest s₁ _ hs₁ hm => ?_
  split
  · exact Fulfils.raise hs₁
  · rename_i hdate
    rw [← not_not.mp hdate]
    exact fulfils_appendIndex hm

theorem fulfils_publishGap {encode : GapEvent → Bytes} {write : GapWrite}
    (hwrite : N.Drafts write.draft (encode write.event)) (retriedAt : Int) {s : TransferFiles}
    (hs : s.Provenance N sha256) :
    Fulfils hsha (fun _ _ => True) (publishGap sha256 encode write retriedAt) s := by
  have hretry : N.Drafts ({ write with createdAt := retriedAt } : GapWrite).draft
      (encode write.event) :=
    ⟨hwrite.collectorId, hwrite.utcDate, hwrite.writerGroup, hwrite.dataPath,
      hwrite.contentType, hwrite.content⟩
  refine Fulfils.bind (Fulfils.of_each (Each.io trivial) hs) fun isSealed s₁ _ hs₁ _ => ?_
  split
  · exact Fulfils.raise hs₁
  · refine Fulfils.bind (fulfils_generateAndRecord (fulfils_publish hwrite write.draft_named)).attempt
      fun result s₂ _ hs₂ _ => ?_
    split
    · exact Fulfils.ret hs₂ trivial
    · exact fulfils_generateAndRecord (fulfils_publish hretry (GapWrite.draft_named _))
    · exact Fulfils.raise hs₂

/-! ## Sealing -/

/-- Every reference collected so far is that of a chunk published for the day. -/
def Collected (utcDate : Int) (byIdentity : List ((String × String) × ChunkRef))
    (s : TransferFiles) : Prop :=
  ∀ entry ∈ byIdentity, s.IsRef utcDate entry.2

section Collected
variable {utcDate : Int} {byIdentity : List ((String × String) × ChunkRef)} {s s' : TransferFiles}

theorem Collected.nil : Collected utcDate [] s := by simp [Collected]

theorem Collected.later (h : Collected utcDate byIdentity s) (hlater : Later N s s') :
    Collected utcDate byIdentity s' :=
  fun entry hm => hlater.isRef (h entry hm)

theorem Collected.addRef (h : Collected utcDate byIdentity s) {chunk : ChunkRef}
    (hchunk : s.IsRef utcDate chunk) : Collected utcDate (addRef byIdentity chunk) s := by
  intro entry hm
  rcases KeyedDict.mem_set hm with hm | ⟨-, heq⟩
  · exact h entry hm
  · rw [heq]
    exact hchunk

theorem Collected.foldl_addRef {lines : List ChunkRef}
    (hlines : ∀ chunk ∈ lines, s.IsRef utcDate chunk) (h : Collected utcDate byIdentity s) :
    Collected utcDate (lines.foldl MiryFormal.addRef byIdentity) s := by
  induction lines generalizing byIdentity with
  | nil => exact h
  | cons chunk lines ih =>
    exact ih (fun later hm => hlines later (List.mem_cons_of_mem _ hm))
      (h.addRef (hlines chunk List.mem_cons_self))

end Collected

/-- A manifest of the day, read below one of the roots of `_read_refs`, is added. -/
theorem fulfils_addManifest {utcDate : Int} {byIdentity : List ((String × String) × ChunkRef)}
    {s : TransferFiles} (hs : s.Provenance N sha256) (h : Collected utcDate byIdentity s)
    {content : Option ChunkManifest}
    (hcontent : ∀ manifest ∈ content, manifest ∈ s.published ∧ manifest.utcDate = utcDate) :
    Fulfils hsha (Collected utcDate) (addManifest byIdentity content) s := by
  cases content with
  | none => exact Fulfils.raise hs
  | some manifest =>
    obtain ⟨hm, hdate⟩ := hcontent manifest rfl
    exact Fulfils.ret hs (h.addRef ⟨manifest, hm, rfl, hdate⟩)

theorem utcDate_of_readyOf {utcDate : Int} {paths : List RelPath} {manifest : ChunkManifest}
    (hfits : N.Fits sha256 manifest) (hm : manifest.manifestPath ∈ readyOf utcDate paths) :
    manifest.utcDate = utcDate := by
  have hhead := of_decide_eq_true (List.mem_filter.mp hm).2
  rw [hfits.manifestPath] at hhead
  rw [hfits.utcDate]
  exact PathPart.date.inj (Option.some.inj hhead)

theorem fulfils_readRefs (utcDate : Int) {s : TransferFiles} :
    Fulfils hsha (Collected utcDate) (readRefs utcDate) s := by
  have hlines : Fulfils hsha (fun lines s => ∀ chunks ∈ lines, ∀ chunk ∈ chunks,
      s.IsRef utcDate chunk) (io (readIndex utcDate)) s := by
    refine Fulfils.io fun s₁ _ hs₁ => ⟨trivial, fun lines hread chunks hm => ?_⟩
    cases hread
    exact hs₁.index utcDate chunks hm
  refine Fulfils.bind hlines fun lines s₁ h₁ hs₁ hrefs => ?_
  cases lines with
  | none => exact Fulfils.ret hs₁ .nil
  | some lines =>
    have hcollected : Collected utcDate (lines.foldl addRef []) s₁ :=
      Collected.foldl_addRef (hrefs lines rfl) .nil
    refine Fulfils.bind (Fulfils.of_each (Each.io trivial) hs₁) fun ready s₂ h₂ hs₂ _ => ?_
    refine Fulfils.bind (K := Collected utcDate)
      (Fulfils.foldlM (fun byIdentity s path hpath _ hbefore => ?_) hs₂ (hcollected.later h₂))
      fun byIdentity s₃ _ hs₃ hready => ?_
    · refine Fulfils.bind (K := fun content s => Collected utcDate byIdentity s ∧
        ∀ manifest ∈ content, manifest ∈ s.published ∧ manifest.utcDate = utcDate)
        (Fulfils.io fun s' h' hs' => ⟨trivial, fun content hread => ⟨hbefore.later h', ?_⟩⟩)
        fun content s' _ hs' h' => fulfils_addManifest hs' h'.1 h'.2
      intro manifest hm
      obtain ⟨hpublished, rfl⟩ := hs'.manifests path content (found_ok.mp hread) manifest hm
      exact ⟨hpublished, utcDate_of_readyOf (hs'.fits manifest hpublished) hpath⟩
    · refine Fulfils.bind (Fulfils.of_each (Each.io trivial) hs₃) fun acked s₄ h₄ hs₄ _ => ?_
      refine Fulfils.foldlM (fun byIdentity s name _ _ hbefore => ?_) hs₄ (hready.later h₄)
      refine Fulfils.bind (K := fun content s => Collected utcDate byIdentity s ∧
        ∀ manifest ∈ content, manifest ∈ s.published ∧ manifest.utcDate = utcDate)
        (Fulfils.io fun s' h' hs' => ⟨trivial, fun content hread => ⟨hbefore.later h', ?_⟩⟩)
        fun content s' _ hs' h' => fulfils_addManifest hs' h'.1 h'.2
      intro manifest hm
      obtain ⟨hpublished, hdate⟩ := hs'.acked _ content (found_ok.mp hread) manifest hm
      exact ⟨hpublished, hdate.symm⟩

theorem fulfils_cleanSealedDayState {utcDate : Int} {s : TransferFiles}
    (hs : s.Provenance N sha256) (hsealed : s.IsSealed utcDate) :
    Fulfils hsha (fun _ _ => True) (cleanSealedDayState utcDate) s := by
  have hindex : Fulfils hsha (fun _ _ => True) (deleteIndex utcDate) s := by
    refine Fulfils.bind (Fulfils.of_each (Each.io trivial) hs) fun index s₁ h₁ hs₁ _ => ?_
    split
    · exact Fulfils.io fun s₂ h₂ _ => ⟨h₂.isSealed (h₁.isSealed hsealed), fun _ _ => trivial⟩
    · exact Fulfils.ret hs₁ trivial
  refine Fulfils.bind hindex fun _ s₁ h₁ hs₁ _ => ?_
  refine Fulfils.bind (Fulfils.of_each (Each.io trivial) hs₁) fun acked s₂ h₂ hs₂ _ => ?_
  refine Fulfils.forM (J := fun s => s.IsSealed utcDate) (fun _ _ hlater h => hlater.isSealed h)
    (fun s name _ _ h => ?_) hs₂ (h₂.isSealed (h₁.isSealed hsealed))
  exact Fulfils.io fun s₁ h₁ _ => ⟨h₁.isSealed h, fun _ _ => trivial⟩

theorem fulfils_sealDay (utcDate sealedAt : Int) {s : TransferFiles} :
    Fulfils hsha (fun _ _ => True) (sealDay N.collectorId utcDate sealedAt) s := by
  refine Fulfils.bind (ApplyCall.fulfils_sealedExists utcDate) fun isSealed s₁ _ hs₁ hsealed => ?_
  split
  · rename_i htrue
    exact fulfils_cleanSealedDayState hs₁ (hsealed htrue)
  · refine Fulfils.bind (fulfils_readRefs utcDate) fun byIdentity s₂ _ hs₂ hrefs => ?_
    dsimp only
    split
    · refine Fulfils.bind (K := fun _ s => s.IsSealed utcDate)
        (Fulfils.io fun s₃ h₃ _ => ⟨⟨rfl, ?_⟩, fun _ _ => ?_⟩)
        fun _ s₃ _ hs₃ hsealed => fulfils_cleanSealedDayState hs₃ hsealed
      · intro chunk hm
        obtain ⟨entry, hentry, rfl⟩ := mem_sortedRefs.mp hm
        exact h₃.isRef (hrefs entry hentry)
      · show (s₃.edge.sealedDays.write _ _).read _ ≠ none
        rw [Folder.read_write_self]
        simp
    · exact Fulfils.raise hs₂

/-! ## Pulling -/

theorem each_validateManifest (content : Option ChunkManifest) :
    (validateManifest content).Each Naming.Free := by
  cases content <;> trivial

theorem each_checkCollector (collectorId : String) :
    (checkCollector collectorId).Each Naming.Free := by
  unfold checkCollector
  split <;> trivial

theorem each_pullReady : pullReady.Each Naming.Free := by
  refine Obeys.bind ?_ fun _ => Obeys.bind (Each.io trivial) fun inventory =>
    Obeys.bind ?_ fun downloads => Obeys.bind (Obeys.forM fun _ _ => Each.io trivial) fun _ => ?_
  · exact Obeys.bind (Each.io trivial) fun paths =>
      Obeys.bind (Obeys.forM fun _ _ => Each.io trivial) fun _ =>
      Obeys.bind (Each.io trivial) fun dates =>
      Obeys.bind (Obeys.forM fun _ _ => Each.io trivial) fun _ =>
      Obeys.bind (Each.io trivial) fun copies => Obeys.forM fun _ _ => Each.io trivial
  · refine Obeys.foldlM fun downloads path _ => ?_
    refine Obeys.bind (Each.io trivial) fun content =>
      Obeys.bind (each_validateManifest content) fun manifest => ?_
    split
    · trivial
    · refine Obeys.bind (each_checkCollector _) fun _ => Obeys.bind (Each.io trivial) fun durable => ?_
      split <;> trivial
  · exact Obeys.bind (Each.io trivial) fun manifests =>
      Obeys.bind (Obeys.forM fun _ _ => Each.io trivial) fun _ =>
      Obeys.bind (Each.io trivial) fun dates =>
      Obeys.bind (Obeys.forM fun _ _ => Each.io trivial) fun _ =>
      Obeys.bind (Each.io trivial) fun copies =>
      Obeys.bind (Obeys.forM fun _ _ => Each.io trivial) fun _ =>
      Obeys.bind (Each.io trivial) fun data => Obeys.forM fun _ _ => Each.io trivial

theorem each_pushAcks : pushAcks.Each Naming.Free := by
  refine Obeys.bind (Each.io trivial) fun names => Obeys.bind (Obeys.foldlM fun staged name _ => ?_)
    fun staged => Obeys.bind (Obeys.forM fun _ _ => Each.io trivial) fun _ =>
      Obeys.forM fun _ _ => Each.io trivial
  refine Obeys.bind (Obeys.attempt (Each.io trivial)) fun content => ?_
  split
  · split
    · exact Obeys.bind (Each.io trivial) fun _ => trivial
    · trivial
  · exact Obeys.bind (Each.io trivial) fun _ => trivial

/-- What the raw tree holds under the path of a copied manifest is its chunk. -/
theorem inRaw_of_read {s : TransferFiles} (hs : s.Provenance N sha256) {manifest : ChunkManifest}
    (hm : manifest ∈ s.published) {collectorId : String} {path : RelPath}
    (hcollector : collectorId = N.collectorId) (hpath : path = manifest.dataPath)
    (h : s.pull.rawData.read (toLex (collectorId, path)) ≠ none) :
    s.InRaw N manifest.chunkId := by
  obtain ⟨content, hread⟩ := Option.ne_none_iff_exists'.mp h
  obtain ⟨chunkId, hkey, hcontent⟩ := hs.rawData _ _ hread
  have hdata := (hs.fits manifest hm).dataPath
  have hid : manifest.chunkId = chunkId := by
    refine N.path_injective ?_
    rw [← hdata, ← hpath]
    exact (Prod.ext_iff.mp (toLex.injective hkey)).2
  rw [InRaw, ← hdata, ← hpath, ← hcollector, hread, hcontent, hid]

namespace PullCall
variable (call : PullCall)

theorem fulfils_storeData {manifest : ChunkManifest} {s : TransferFiles}
    (hs : s.Provenance N sha256) (hm : manifest ∈ s.copied) :
    Fulfils hsha (fun _ s => s.InRaw N manifest.chunkId) (call.storeData sha256 manifest) s := by
  have hcollector := (hs.fits manifest (hs.copies hm)).collectorId
  -- What was moved into the raw tree was verified against the manifest.
  have hmoved : ∀ s' : TransferFiles, s'.Provenance N sha256 → manifest ∈ s'.copied →
      ∀ content, sha256 content = manifest.sha256 →
        (s'.pull.rawData.write (toLex (manifest.collectorId, manifest.dataPath)) content).read
          (toLex (N.collectorId, N.path manifest.chunkId)) = some (N.content manifest.chunkId) := by
    intro s' hs' hm' content hverify
    have hfits := hs'.fits manifest (hs'.copies hm')
    rw [hfits.collectorId, hfits.dataPath, Folder.read_write_self, hs'.verified hsha hm' hverify]
  have hexists : Fulfils hsha (fun present s => present = true → s.InRaw N manifest.chunkId)
      (io (rawExists manifest.collectorId manifest.dataPath)) s := by
    refine Fulfils.io fun s₁ h₁ hs₁ => ⟨trivial, fun present hpresent htrue => ?_⟩
    cases hpresent
    refine inRaw_of_read hs₁ (hs₁.copies (h₁.copied hm)) hcollector rfl ?_
    exact Option.isSome_iff_ne_none.mp htrue
  refine Fulfils.bind hexists fun present s₁ h₁ hs₁ hraw => ?_
  split
  · rename_i htrue
    refine Fulfils.bind (Fulfils.of_each (Each.io trivial) hs₁) fun content s₂ h₂ hs₂ _ => ?_
    split
    · exact Fulfils.ret hs₂ (h₂.inRaw (hraw htrue))
    · exact Fulfils.raise hs₂
  · split
    · refine Fulfils.bind (K := fun _ s => s.InRaw N manifest.chunkId)
        (Fulfils.io fun s₂ h₂ hs₂ => ?_) fun _ s₂ _ hs₂ hraw => Fulfils.ret hs₂ hraw
      have hm₂ := h₂.copied (h₁.copied hm)
      refine ⟨⟨manifest, hm₂, rfl, rfl, rfl⟩, fun _ hok => ?_⟩
      obtain ⟨content, -, hverify, hfiles⟩ := ifVerified_ok sha256 hok
      rw [TransferOp.run, hfiles]
      exact hmoved s₂ hs₂ hm₂ content hverify
    · refine Fulfils.bind (Fulfils.of_each (Each.io trivial) hs₁) fun _ s₂ h₂ hs₂ _ => ?_
      refine Fulfils.bind (K := fun _ s => s.InRaw N manifest.chunkId)
        (Fulfils.io fun s₃ h₃ hs₃ => ?_) fun _ s₃ _ hs₃ hraw => Fulfils.ret hs₃ hraw
      have hm₃ := h₃.copied (h₂.copied (h₁.copied hm))
      refine ⟨⟨manifest, hm₃, rfl, rfl, rfl⟩, fun _ hok => ?_⟩
      obtain ⟨content, -, hverify, hfiles⟩ := ifVerified_ok sha256 hok
      rw [TransferOp.run, hfiles]
      exact hmoved s₃ hs₃ hm₃ content hverify

theorem fulfils_storeManifest {manifest : ChunkManifest} {s : TransferFiles}
    (hs : s.Provenance N sha256) (hm : manifest ∈ s.copied) :
    Fulfils hsha (fun _ s => s.HasLocal N manifest.chunkId) (storeManifest manifest) s := by
  have hfits := hs.fits manifest (hs.copies hm)
  have hread : Fulfils hsha (fun existing s => existing ≠ none → s.HasLocal N manifest.chunkId)
      (io (readRawManifest manifest.collectorId manifest.manifestPath)) s := by
    refine Fulfils.io fun s₁ _ _ => ⟨trivial, fun existing hexisting hne => ?_⟩
    cases hexisting
    rwa [hfits.collectorId, hfits.manifestPath] at hne
  refine Fulfils.bind hread fun existing s₁ h₁ hs₁ hlocal => ?_
  cases existing with
  | some existing =>
    dsimp only
    split
    · exact Fulfils.raise hs₁
    · exact Fulfils.ret hs₁ (hlocal (by simp))
  | none =>
    refine Fulfils.io fun s₂ h₂ _ => ⟨⟨h₂.copied (h₁.copied hm), hfits.collectorId, rfl⟩, ?_⟩
    intro _ _
    show (s₂.pull.rawManifests.write _ _).read _ ≠ none
    rw [hfits.collectorId, hfits.manifestPath, Folder.read_write_self]
    simp

theorem fulfils_ingestChunk (path : RelPath) {s : TransferFiles} :
    Fulfils hsha (fun _ _ => True) (call.ingestChunk sha256 path) s := by
  have hread : Fulfils hsha (fun content s => ∀ manifest ∈ content, manifest ∈ s.copied)
      (io (readMirrorManifest path)) s := by
    refine Fulfils.io fun s₁ _ hs₁ => ⟨trivial, fun content hcontent manifest hm => ?_⟩
    exact (hs₁.mirrorManifests path content (found_ok.mp hcontent) manifest hm).1
  refine Fulfils.bind hread fun content s₁ _ hs₁ hcontent => ?_
  cases content with
  | none => exact Fulfils.bind (K := fun _ _ => False) (Fulfils.raise hs₁) fun _ _ _ _ h => h.elim
  | some manifest =>
    have hm := hcontent manifest rfl
    refine Fulfils.bind (K := fun a _ => a = manifest) (Fulfils.ret hs₁ rfl) ?_
    rintro _ s₂ h₂ hs₂ rfl
    refine Fulfils.bind (Fulfils.of_each (each_checkCollector _) hs₂) fun _ s₃ h₃ hs₃ _ => ?_
    have hm₃ := h₃.copied (h₂.copied hm)
    refine Fulfils.bind (call.fulfils_storeData hs₃ hm₃) fun wroteData s₄ h₄ hs₄ hraw => ?_
    have hm₄ := h₄.copied hm₃
    refine Fulfils.bind (fulfils_storeManifest hs₄ hm₄) fun _ s₅ h₅ hs₅ hlocal => ?_
    refine Fulfils.bind (K := fun _ _ => True) (Fulfils.io fun s₆ h₆ hs₆ => ⟨?_, fun _ _ => trivial⟩)
      fun _ s₆ _ hs₆ _ => Fulfils.ret hs₆ trivial
    exact ⟨_, hs₆.copies (h₆.copied (h₅.copied hm₄)), rfl, rfl, h₆.inRaw (h₅.inRaw hraw),
      h₆.hasLocal hlocal⟩

theorem fulfils_chunksStored {utcDate : Int} {collectorId : String} (hcollector : collectorId = N.collectorId)
    {chunks : List ChunkRef} {s : TransferFiles} (hs : s.Provenance N sha256)
    (hchunks : ∀ chunk ∈ chunks, s.IsRef utcDate chunk) :
    Fulfils hsha (fun stored s => stored = true → ∀ chunk ∈ chunks, s.InRaw N chunk.chunkId)
      (chunksStored sha256 collectorId chunks) s := by
  induction chunks generalizing s with
  | nil => exact Fulfils.ret hs (by simp)
  | cons chunk chunks ih =>
    have hexists : Fulfils hsha (fun present s => present = true → s.InRaw N chunk.chunkId)
        (io (rawExists collectorId chunk.dataPath)) s := by
      refine Fulfils.io fun s₁ h₁ hs₁ => ⟨trivial, fun present hpresent htrue => ?_⟩
      cases hpresent
      obtain ⟨manifest, hm, rfl, -⟩ := h₁.isRef (hchunks chunk List.mem_cons_self)
      exact inRaw_of_read hs₁ hm hcollector rfl (Option.isSome_iff_ne_none.mp htrue)
    refine Fulfils.bind hexists fun present s₁ h₁ hs₁ hraw => ?_
    split
    · rename_i htrue
      refine Fulfils.bind (Fulfils.of_each (Each.io trivial) hs₁) fun content s₂ h₂ hs₂ _ => ?_
      split
      · exact Fulfils.ret hs₂ (by simp)
      · split
        · exact Fulfils.raise hs₂
        · have hlater := h₁.trans h₂
          have hraw₂ := h₂.inRaw (hraw htrue)
          have hrest := ih hs₂ fun other hm => hlater.isRef (hchunks other (List.mem_cons_of_mem _ hm))
          have htail : Fulfils hsha (fun stored s => (stored = true → ∀ other ∈ chunks,
              s.InRaw N other.chunkId)) (chunksStored sha256 collectorId chunks) s₂ := hrest
          refine Discipline.Upholds.mono ?_ htail
          rintro result s₃ ⟨hkept, hstored⟩
          refine ⟨hkept, fun stored hresult htrue other hm => ?_⟩
          rcases List.mem_cons.mp hm with rfl | hm
          · exact hkept.2.inRaw hraw₂
          · exact hstored stored hresult htrue other hm
    · exact Fulfils.ret hs₁ (by simp)

theorem fulfils_publishCompleteDay (utcDate : Int) {s : TransferFiles} :
    Fulfils hsha (fun _ _ => True) (publishCompleteDay sha256 utcDate) s := by
  have hread : Fulfils hsha (fun day s => s.ListsRefs N day) (io (readMirrorSealed utcDate)) s := by
    refine Fulfils.io fun s₁ _ hs₁ => ⟨trivial, fun day hday => ?_⟩
    exact hs₁.mirrorSealed utcDate day (found_ok.mp hday)
  refine Fulfils.bind hread fun day s₁ _ hs₁ hlists => ?_
  refine Fulfils.bind (Fulfils.of_each (each_checkCollector _) hs₁) fun _ s₂ h₂ hs₂ _ => ?_
  refine Fulfils.bind (Fulfils.of_each (Each.io trivial) hs₂) fun existing s₃ h₃ hs₃ _ => ?_
  cases existing with
  | some existing =>
    dsimp only
    split
    · exact Fulfils.raise hs₃
    · exact Fulfils.ret hs₃ trivial
  | none =>
    have hlists₃ := h₃.listsRefs (h₂.listsRefs hlists)
    refine Fulfils.bind (fulfils_chunksStored hlists₃.1 hs₃ hlists₃.2) fun stored s₄ h₄ hs₄ hraw => ?_
    split
    · rename_i htrue
      refine Fulfils.bind (K := fun _ _ => True) (Fulfils.io fun s₅ h₅ _ => ⟨?_, fun _ _ => trivial⟩)
        fun _ s₅ _ hs₅ _ => Fulfils.ret hs₅ trivial
      exact ⟨hlists.1, h₅.listsRefs (h₄.listsRefs hlists₃),
        fun chunk hm => h₅.inRaw (hraw htrue chunk hm)⟩
    · exact Fulfils.ret hs₄ trivial

theorem fulfils_run {s : TransferFiles} (hs : s.Provenance N sha256) :
    Fulfils hsha (fun _ _ => True) (call.run sha256) s := by
  refine Fulfils.bind (Fulfils.of_each (Each.io trivial) hs) fun manifests s₁ _ hs₁ _ => ?_
  refine Fulfils.bind (Fulfils.of_each (Each.io trivial) hs₁) fun dates s₂ _ hs₂ _ => ?_
  refine Fulfils.bind (K := fun _ _ => True) (Fulfils.foldlM (fun result s path _ _ _ => ?_) hs₂ trivial)
    fun result s₃ _ hs₃ _ => ?_
  · refine Fulfils.bind (call.fulfils_ingestChunk path).attempt fun chunk s' _ hs' _ => ?_
    split <;> exact Fulfils.ret hs' trivial
  · refine Fulfils.foldlM (fun result s utcDate _ _ _ => ?_) hs₃ trivial
    refine Fulfils.bind (fulfils_publishCompleteDay utcDate).attempt fun published s' _ hs' _ => ?_
    split <;> exact Fulfils.ret hs' trivial

end PullCall

theorem fulfils_runPull (call : PullCall) {s : TransferFiles} (hs : s.Provenance N sha256) :
    Fulfils hsha (fun _ _ => True) (runPull sha256 call) s := by
  refine Fulfils.bind (Fulfils.of_each each_pullReady hs) fun _ s₁ _ hs₁ _ => ?_
  refine Fulfils.bind (call.fulfils_run hs₁) fun _ s₂ _ hs₂ _ => ?_
  exact Fulfils.of_each each_pushAcks hs₂

end MiryFormal
