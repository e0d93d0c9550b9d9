import MiryFormal.Transfer.NoLoss

/-!
# Tombstones

A published manifest lies in `ready` until its ACK is applied, and then among the tombstones
until its day is sealed.
-/

namespace MiryFormal

set_option autoImplicit false

open Program TransferOp TransferFiles

namespace ChunkManifest

/-- The key of the tombstone of a manifest. -/
def tombstone (manifest : ChunkManifest) : Int ×ₗ String :=
  toLex (manifest.utcDate, manifest.manifestPath.name)

end ChunkManifest

namespace TransferFiles

/-- The manifests of the spool are those that were published, and none of them is lost before
its day is sealed. -/
structure Tombstoned (s : TransferFiles) : Prop where
  ready : s.edge.manifests.All fun _ content => content ≠ none
  acked : s.edge.acked.All fun key content =>
    ∃ manifest ∈ s.published, content = some manifest ∧ key = manifest.tombstone
  held : ∀ manifest ∈ s.published, s.edge.manifests.read manifest.manifestPath ≠ none ∨
    s.edge.acked.read manifest.tombstone ≠ none ∨ s.IsSealed manifest.utcDate

variable {N : Naming} {sha256 : Bytes → String} {s s' : TransferFiles}

theorem tombstoned_empty : ({} : TransferFiles).Tombstoned where
  ready := .empty
  acked := .empty
  held := fun _ hm => nomatch hm

theorem Tombstoned.of_same (h : s.Tombstoned) (hlater : Later N s s')
    (hready : s'.edge.manifests = s.edge.manifests) (hacked : s'.edge.acked = s.edge.acked)
    (hpublished : s'.published = s.published) : s'.Tombstoned := by
  constructor
  · rw [hready]
    exact h.ready
  · rw [hacked, hpublished]
    exact h.acked
  · rw [hready, hacked, hpublished]
    exact fun manifest hm => (h.held manifest hm).imp_right fun h => h.imp_right hlater.isSealed

theorem Tombstoned.writeManifest (h : s.Tombstoned) {path : RelPath} {manifest : ChunkManifest}
    (hpath : path = manifest.manifestPath) :
    (TransferOp.run sha256 (.writeManifest path manifest) s).2.Tombstoned := by
  subst hpath
  refine ⟨h.ready.write (by simp), h.acked.mono ?_, ?_⟩
  · rintro key content ⟨known, hm, hcontent, hkey⟩
    exact ⟨known, List.mem_append_left _ hm, hcontent, hkey⟩
  · intro known hm
    show (s.edge.manifests.write _ _).read _ ≠ none ∨ _
    rw [Folder.read_write]
    split
    · exact .inl (by simp)
    · rename_i hne
      rcases List.mem_append.mp hm with hm | hm
      · exact h.held known hm
      · rw [List.mem_singleton.mp hm] at hne
        exact absurd rfl hne

theorem Tombstoned.unlinkManifest (h : s.Tombstoned) (hs : s.Provenance N sha256) {path : RelPath}
    (hop : N.Allows sha256 (.unlinkManifest path) s) :
    (TransferOp.run sha256 (.unlinkManifest path) s).2.Tombstoned := by
  obtain ⟨manifest, hm, rfl, hsealed⟩ := hop
  refine ifFound_files h fun _ _ => ⟨h.ready.remove _, h.acked, fun known hknown => ?_⟩
  show (s.edge.manifests.remove _).read _ ≠ none ∨ _
  rw [Folder.read_remove]
  split
  · rename_i hpath
    right
    right
    show s.IsSealed known.utcDate
    rwa [← (hs.fits _ hm).utcDate_eq (hs.fits _ hknown) hpath]
  · exact h.held known hknown

theorem Tombstoned.moveManifest (h : s.Tombstoned) (hs : s.Provenance N sha256) {path : RelPath}
    {utcDate : Int} (hop : N.Allows sha256 (.moveManifest path utcDate) s) :
    (TransferOp.run sha256 (.moveManifest path utcDate) s).2.Tombstoned := by
  obtain ⟨named, hnamed, rfl, rfl⟩ := hop
  refine ifFound_files h fun content hread => ?_
  obtain ⟨manifest, rfl⟩ := Option.ne_none_iff_exists'.mp (h.ready _ _ hread)
  obtain ⟨hm, hpath⟩ := hs.manifests _ _ hread manifest rfl
  have hkey : toLex (named.utcDate, named.manifestPath.name) = manifest.tombstone := by
    rw [ChunkManifest.tombstone, (hs.fits _ hnamed).utcDate_eq (hs.fits _ hm) hpath, hpath]
  refine ⟨h.ready.remove _, h.acked.write ⟨manifest, hm, rfl, hkey⟩, fun known hknown => ?_⟩
  by_cases hsame : named.manifestPath = known.manifestPath
  · right
    left
    have hknownKey : toLex (named.utcDate, named.manifestPath.name) = known.tombstone := by
      rw [ChunkManifest.tombstone, (hs.fits _ hnamed).utcDate_eq (hs.fits _ hknown) hsame, hsame]
    show (s.edge.acked.write _ _).read _ ≠ none
    rw [hknownKey, Folder.read_write_self]
    simp
  · rcases h.held known hknown with hready | hacked | hsealed
    · left
      show (s.edge.manifests.remove _).read _ ≠ none
      rwa [Folder.read_remove, if_neg hsame]
    · right
      left
      show (s.edge.acked.write _ _).read _ ≠ none
      rw [Folder.read_write]
      split
      · simp
      · exact hacked
    · exact .inr (.inr hsealed)

theorem Tombstoned.unlinkAcked (h : s.Tombstoned) {utcDate : Int} {name : String}
    (hop : N.Allows sha256 (.unlinkAcked utcDate name) s) :
    (TransferOp.run sha256 (.unlinkAcked utcDate name) s).2.Tombstoned := by
  refine ifFound_files h fun _ _ => ⟨h.ready, h.acked.remove _, fun known hknown => ?_⟩
  rcases h.held known hknown with hready | hacked | hsealed
  · exact .inl hready
  · by_cases hkey : toLex (utcDate, name) = known.tombstone
    · right
      right
      have hdate : utcDate = known.utcDate := (Prod.ext_iff.mp (toLex.injective hkey)).1
      rw [← hdate]
      exact hop
    · right
      left
      show (s.edge.acked.remove _).read _ ≠ none
      rwa [Folder.read_remove, if_neg hkey]
  · exact .inr (.inr hsealed)

theorem Tombstoned.run (h : s.Tombstoned) (hs : s.Provenance N sha256) {op : TransferOp}
    (hop : N.Allows sha256 op s) (hlater : Later N s (TransferOp.run sha256 op s).2) :
    (TransferOp.run sha256 op s).2.Tombstoned := by
  have hfound : ∀ {β : Type} (content : Option β) (change : β → TransferFiles),
      (∀ c, (change c).edge.manifests = s.edge.manifests ∧
        (change c).edge.acked = s.edge.acked ∧ (change c).published = s.published ∧
          (change c).edge.sealedDays = s.edge.sealedDays) →
        (ifFound content s change).2.Tombstoned := by
    refine fun content change hsame => ifFound_files h fun c _ => ?_
    obtain ⟨hready, hacked, hpublished, hsealed⟩ := hsame c
    constructor
    · rw [hready]
      exact h.ready
    · rw [hacked, hpublished]
      exact h.acked
    · rw [hready, hacked, hpublished]
      intro manifest hm
      rw [IsSealed, hsealed]
      exact h.held manifest hm
  cases op with
  | writeManifest path manifest => exact h.writeManifest hop.2.1
  | unlinkManifest path => exact h.unlinkManifest hs hop
  | moveManifest path utcDate => exact h.moveManifest hs hop
  | unlinkAcked utcDate name => exact h.unlinkAcked hop
  | promote | replacePartial =>
    exact ifVerified_files sha256 h fun _ _ _ => ⟨h.ready, h.acked, h.held⟩
  | _ =>
    first
    | exact h
    | exact h.of_same hlater rfl rfl rfl
    | exact hfound _ _ fun _ => ⟨rfl, rfl, rfl, rfl⟩

/-- What one operation keeps, also when it fails. -/
theorem Tombstoned.step (h : s.Tombstoned) (hsha : N.CollisionFree sha256)
    (hs : s.Provenance N sha256) {op : TransferOp} (hop : N.Allows sha256 op s) {answer : op.Answer}
    (hsem : Sem sha256 op s answer s') : s'.Tombstoned := by
  have hlater := (kept_sem hsha hs hop hsem).2
  cases hsem with
  | done => exact h.run hs hop hlater
  | failed => exact h
  | failedLate => exact h.run hs hop hlater
  | tornAppend => exact h.of_same hlater rfl rfl rfl
  | partialSync => exact h.of_same hlater rfl rfl rfl

end TransferFiles

/-- What holds of the manifests of the spool in every run. -/
theorem TransferCrew.tombstoned {N : Naming} {sha256 : Bytes → String}
    {encode : GapEvent → Bytes} (hsha : N.CollisionFree sha256) {crew : TransferCrew}
    (hreach : Crew.Reaches (Sem sha256) (N.May sha256 encode) ⟨{}, []⟩ crew) :
    crew.store.Provenance N sha256 ∧ crew.store.Tombstoned :=
  TransferCrew.invariant hsha (fun _ _ _ _ h => h)
    (fun _ _ _ _ hinv hop hsem h => h.step hsha hinv hop hsem) hreach tombstoned_empty

end MiryFormal
