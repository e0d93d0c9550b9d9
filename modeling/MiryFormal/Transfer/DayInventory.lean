import MiryFormal.Transfer.AckReplay

/-!
# What a sealed day lists

`DayIndex.seal` reads the references of a day from its journal, from the manifests in `ready` and
from the tombstones, while chunks are published and ACKs are applied beside it. The calls of the
day index hold its lock from their first file operation to their last one.
-/

namespace MiryFormal

set_option autoImplicit false

open Program TransferOp TransferFiles

variable {N : Naming} {sha256 : Bytes → String}

/-! ## One chunk under one name -/

/-- Two manifests with one tombstone are of one chunk. -/
theorem Naming.Fits.asRef_eq_of_tombstone {a b : ChunkManifest} (ha : N.Fits sha256 a)
    (hb : N.Fits sha256 b) (h : a.tombstone = b.tombstone) : a.asRef = b.asRef := by
  have hname : a.manifestPath.name = b.manifestPath.name := (Prod.ext_iff.mp (toLex.injective h)).2
  have hid : a.chunkId = b.chunkId := by
    cases htype : b.contentType with
    | parquet =>
      exact (of_manifestPath_name ha hb.proper
        (hname.trans (manifestPath_name_parquet hb htype))).2
    | gapJson =>
      cases hatype : a.contentType with
      | parquet =>
        have hparquet := (of_manifestPath_name hb ha.proper
          (hname.symm.trans (manifestPath_name_parquet ha hatype))).1
        rw [htype] at hparquet
        cases hparquet
      | gapJson =>
        rw [manifestPath_name_gapJson ha hatype, manifestPath_name_gapJson hb htype] at hname
        exact (String.append_left_inj _).mp hname
  refine ha.asRef_eq hb ?_
  rw [ha.manifestPath, hb.manifestPath, hid]

/-- Two references of one id are the same. -/
theorem TransferFiles.Provenance.ref_eq {s : TransferFiles} (hs : s.Provenance N sha256)
    {utcDate : Int} {chunk other : ChunkRef} (hchunk : s.IsRef utcDate chunk)
    (hother : s.IsRef utcDate other) (hid : chunk.chunkId = other.chunkId) : chunk = other := by
  obtain ⟨a, ha, rfl, -⟩ := hchunk
  obtain ⟨b, hb, rfl, -⟩ := hother
  refine (hs.fits a ha).asRef_eq (hs.fits b hb) ?_
  rw [(hs.fits a ha).manifestPath, (hs.fits b hb).manifestPath]
  exact congrArg (fun id => (N.path id).manifestPath) hid

/-! ## What happens outside the lock -/

namespace TransferOp

/-- The operations that the lock guards, and the removal of a tombstone. -/
def Guarded : TransferOp → Prop
  | writeSealed _ | appendIndex _ _ | unlinkIndex _ | unlinkAcked _ _ => True
  | _ => False

end TransferOp

namespace TransferFiles
variable {s s' : TransferFiles}

/-- What the programs without the lock leave of the files that the day index reads. -/
structure Undisturbed (N : Naming) (s s' : TransferFiles) : Prop extends Later N s s' where
  sealedDays : s'.edge.sealedDays = s.edge.sealedDays
  dayIndex : s'.edge.dayIndex = s.edge.dayIndex
  tombstones : ∀ key, s.edge.acked.read key ≠ none → s'.edge.acked.read key ≠ none

namespace Undisturbed

theorem refl (s : TransferFiles) : Undisturbed N s s := ⟨.refl s, rfl, rfl, fun _ h => h⟩

theorem trans {u : TransferFiles} (h : Undisturbed N s s') (h' : Undisturbed N s' u) :
    Undisturbed N s u where
  toLater := h.toLater.trans h'.toLater
  sealedDays := h'.sealedDays.trans h.sealedDays
  dayIndex := h'.dayIndex.trans h.dayIndex
  tombstones key hkey := h'.tombstones key (h.tombstones key hkey)

theorem isSealed_iff (h : Undisturbed N s s') {utcDate : Int} :
    s'.IsSealed utcDate ↔ s.IsSealed utcDate := by
  rw [IsSealed, IsSealed, h.sealedDays]

end Undisturbed

/-- The part of `Undisturbed` that says which files stay. -/
def Leaves (s s' : TransferFiles) : Prop :=
  s'.edge.sealedDays = s.edge.sealedDays ∧ s'.edge.dayIndex = s.edge.dayIndex ∧
    ∀ key, s.edge.acked.read key ≠ none → s'.edge.acked.read key ≠ none

theorem leaves_run {op : TransferOp} (h : ¬ op.Guarded) :
    s.Leaves (TransferOp.run sha256 op s).2 := by
  have hself : s.Leaves s := ⟨rfl, rfl, fun _ h => h⟩
  cases op with
  | writeSealed | appendIndex | unlinkIndex | unlinkAcked => exact absurd trivial h
  | moveManifest path utcDate =>
    refine ifFound_files hself fun content _ => ⟨rfl, rfl, fun key hkey => ?_⟩
    show (s.edge.acked.write _ _).read key ≠ none
    rw [Folder.read_write]
    split
    · simp
    · exact hkey
  | promote | replacePartial =>
    exact ifVerified_files sha256 hself fun _ _ _ => ⟨rfl, rfl, fun _ h => h⟩
  | _ =>
    first
    | exact ⟨rfl, rfl, fun _ h => h⟩
    | exact ifFound_files hself fun _ _ => ⟨rfl, rfl, fun _ h => h⟩

theorem leaves_sem {op : TransferOp} (h : ¬ op.Guarded) {answer : op.Answer}
    (hsem : Sem sha256 op s answer s') : s.Leaves s' := by
  cases hsem with
  | done => exact leaves_run h
  | failed => exact ⟨rfl, rfl, fun _ h => h⟩
  | failedLate => exact leaves_run h
  | tornAppend => exact ⟨rfl, rfl, fun _ h => h⟩
  | partialSync => exact ⟨rfl, rfl, fun _ h => h⟩

theorem Later.undisturbed (hlater : Later N s s') (h : s.Leaves s') : Undisturbed N s s' :=
  ⟨hlater, h.1, h.2.1, h.2.2⟩

end TransferFiles

/-! ## Under the lock -/

/-- The calls of the day index, among the programs without its lock. A day lists each manifest of
`begun`, is sealed once, and takes no line afterwards. -/
def Naming.watch (N : Naming) (sha256 : Bytes → String) (begun : Int → List ChunkManifest) :
    Discipline TransferOp TransferOp.Answer TransferFiles where
  sem := fun op s answer s' =>
    Sem sha256 op s answer s' ∧ s'.Provenance N sha256 ∧ s'.Tombstoned ∧ Later N s s'
  rely := Undisturbed N
  inv := fun s => s.Provenance N sha256 ∧ s.Tombstoned
  allowed := fun op s =>
    match op with
    | .writeSealed day => ¬ s.IsSealed day.utcDate ∧
        ∀ manifest ∈ begun day.utcDate, manifest.utcDate = day.utcDate →
          manifest.asRef ∈ day.chunks
    | .appendIndex utcDate _ => ¬ s.IsSealed utcDate
    | _ => True
  keeps := fun _ _ h => ⟨h.2.1, h.2.2.1⟩

/-- Started in `s`, the program reads, and returns with `K` or raises. -/
abbrev Reads {α : Type} (N : Naming) (sha256 : Bytes → String)
    (begun : Int → List ChunkManifest) (K : α → TransferFiles → Prop) (p : TransferProgram α)
    (s : TransferFiles) : Prop :=
  (N.watch sha256 begun).Upholds (fun result s' => Undisturbed N s s' ∧
    s'.Provenance N sha256 ∧ s'.Tombstoned ∧ ∀ a, result = .ok a → K a s') p s

/-- The operations of `_read_refs`. -/
def TransferOp.ReadsRefs : TransferOp → Prop
  | sealedExists _ | readIndex _ | listManifests | readManifest _ | listAcked | readAcked _ _ =>
      True
  | _ => False

namespace Reads
variable {begun : Int → List ChunkManifest} {α β : Type} {K : α → TransferFiles → Prop}
  {R : β → TransferFiles → Prop} {s : TransferFiles}

theorem ret {a : α} (hs : s.Provenance N sha256) (ht : s.Tombstoned) (ha : K a s) :
    Reads N sha256 begun K (ret a) s :=
  ⟨.refl s, hs, ht, fun _ h => by cases h; exact ha⟩

theorem raise {e : Failure} (hs : s.Provenance N sha256) (ht : s.Tombstoned) :
    Reads N sha256 begun K (raise e) s :=
  ⟨.refl s, hs, ht, fun _ h => by cases h⟩

theorem bind {p : TransferProgram α} {f : α → TransferProgram β}
    (hp : Reads N sha256 begun K p s)
    (hf : ∀ a s', Undisturbed N s s' → s'.Provenance N sha256 → s'.Tombstoned → K a s' →
      Reads N sha256 begun R (f a) s') : Reads N sha256 begun R (p >>= f) s := by
  refine Discipline.Upholds.bind hp ?_ ?_
  · rintro a s' ⟨hsame, hs', ht', hK⟩
    refine (hf a s' hsame hs' ht' (hK a rfl)).mono ?_
    rintro result s'' ⟨hsame', hrest⟩
    exact ⟨hsame.trans hsame', hrest⟩
  · rintro e s' ⟨hsame, hs', ht', -⟩
    exact ⟨hsame, hs', ht', fun _ h => by cases h⟩

theorem io (op : TransferOp) (hreads : op.ReadsRefs) {K : op.Value → TransferFiles → Prop}
    (h : ∀ s₁, Undisturbed N s s₁ → s₁.Provenance N sha256 → s₁.Tombstoned →
      ∀ value, (TransferOp.run sha256 op s₁).1 = .ok value → K value s₁) :
    Reads N sha256 begun K (Program.io op) s := by
  refine Discipline.upholds_io fun s₁ hsame ⟨hs₁, ht₁⟩ => ?_
  have hrun : (TransferOp.run sha256 op s₁).2 = s₁ := by
    cases op <;> first | exact hreads.elim | rfl
  refine ⟨by cases op <;> first | exact hreads.elim | trivial, fun r s₂ hsem => ?_⟩
  obtain ⟨hsem, -⟩ := hsem
  have hs₂ : s₂ = s₁ ∧ ∀ value, r = .ok value → (TransferOp.run sha256 op s₁).1 = .ok value := by
    cases hsem with
    | done => exact ⟨hrun, fun _ h => h⟩
    | failed => exact ⟨rfl, fun _ h => by cases h⟩
    | failedLate => exact ⟨hrun, fun _ h => by cases h⟩
    | tornAppend | partialSync => exact hreads.elim
  obtain ⟨rfl, hr⟩ := hs₂
  exact ⟨hsame, hs₁, ht₁, fun value hvalue => h s₂ hsame hs₁ ht₁ value (hr value hvalue)⟩

/-- A loop with an invariant that knows what is still to come. -/
theorem foldlM {γ : Type} {J : List γ → α → TransferFiles → Prop} {items : List γ}
    {f : α → γ → TransferProgram α}
    (hstep : ∀ item rest a s, s.Provenance N sha256 → s.Tombstoned → item ∈ items →
      J (item :: rest) a s → Reads N sha256 begun (J rest) (f a item) s)
    (hs : s.Provenance N sha256) (ht : s.Tombstoned) {a : α} (ha : J items a s) :
    Reads N sha256 begun (J []) (items.foldlM f a) s := by
  induction items generalizing a s with
  | nil => exact ret hs ht ha
  | cons item items ih =>
    rw [List.foldlM_cons]
    refine bind (hstep item items a s hs ht List.mem_cons_self ha) fun a s' _ hs' ht' ha' => ?_
    exact ih (fun later rest a s hs ht hm => hstep later rest a s hs ht (List.mem_cons_of_mem _ hm))
      hs' ht' ha'

end Reads

/-! ## Reading the references -/

/-- The dictionary holds the reference under its identity. -/
def Holds (byIdentity : List ((String × String) × ChunkRef)) (chunk : ChunkRef) : Prop :=
  KeyedDict.get id (chunk.chunkId, chunk.sha256) byIdentity = some chunk

section Holds
variable {utcDate : Int} {byIdentity : List ((String × String) × ChunkRef)} {s : TransferFiles}
  {chunk added : ChunkRef}

theorem holds_addRef (byIdentity : List ((String × String) × ChunkRef)) (chunk : ChunkRef) :
    Holds (addRef byIdentity chunk) chunk := by
  rw [Holds, addRef, KeyedDict.get_set]
  exact if_pos rfl

theorem Holds.addRef (h : Holds byIdentity chunk) (hs : s.Provenance N sha256)
    (hchunk : s.IsRef utcDate chunk) (hadded : s.IsRef utcDate added) :
    Holds (addRef byIdentity added) chunk := by
  rw [Holds, MiryFormal.addRef, KeyedDict.get_set]
  split
  · rename_i hkey
    rw [hs.ref_eq hadded hchunk (Prod.ext_iff.mp hkey).1]
  · exact h

theorem Holds.mem_sortedRefs (h : Holds byIdentity chunk) : chunk ∈ sortedRefs byIdentity := by
  obtain ⟨key, hm, -⟩ := KeyedDict.mem_of_get h
  exact MiryFormal.mem_sortedRefs.mpr ⟨_, hm, rfl⟩

end Holds

/-- Each manifest of the day that `s` has published is held, or satisfies `P`. -/
def Finds (s : TransferFiles) (utcDate : Int) (byIdentity : List ((String × String) × ChunkRef))
    (P : ChunkManifest → Prop) : Prop :=
  ∀ manifest ∈ s.published, manifest.utcDate = utcDate →
    Holds byIdentity manifest.asRef ∨ P manifest

section ReadRefs
variable {begun : Int → List ChunkManifest} {utcDate : Int} {s s' : TransferFiles}
  {byIdentity : List ((String × String) × ChunkRef)}

/-- What one more manifest of the day leaves to be found. -/
theorem reads_addManifest (hs' : s'.Provenance N sha256) (ht' : s'.Tombstoned)
    (hsame : Undisturbed N s s') {content : Option ChunkManifest}
    (hcontent : ∀ added ∈ content, added ∈ s'.published ∧ added.utcDate = utcDate)
    {P Q : ChunkManifest → Prop} (hbefore : Finds s utcDate byIdentity P)
    (hafter : ∀ manifest ∈ s.published, manifest.utcDate = utcDate → P manifest →
      (∀ added ∈ content, added.asRef = manifest.asRef) ∨ Q manifest) :
    Reads N sha256 begun (fun byIdentity _ => Finds s utcDate byIdentity Q)
      (addManifest byIdentity content) s' := by
  cases content with
  | none => exact Reads.raise hs' ht'
  | some added =>
    obtain ⟨hadded, hdate⟩ := hcontent added rfl
    refine Reads.ret hs' ht' fun manifest hm hmdate => ?_
    rcases hbefore manifest hm hmdate with hholds | hbefore
    · exact .inl (hholds.addRef hs' ⟨manifest, hsame.published hm, rfl, hmdate⟩
        ⟨added, hadded, rfl, hdate⟩)
    · refine (hafter manifest hm hmdate hbefore).imp_left fun heq => ?_
      rw [← heq added rfl]
      exact holds_addRef _ _

/-- The loop over the manifests in `ready`. One that has gone in between has a tombstone. -/
theorem reads_ready (hs' : s'.Provenance N sha256) (ht' : s'.Tombstoned)
    (hsame : Undisturbed N s s') {ready : List RelPath} (hfinds : Finds s utcDate byIdentity
      fun manifest => manifest.manifestPath ∈ readyOf utcDate ready ∨
        s'.edge.acked.read manifest.tombstone ≠ none) :
    Reads N sha256 begun (fun byIdentity s'' => Finds s utcDate byIdentity fun manifest =>
        s''.edge.acked.read manifest.tombstone ≠ none)
      ((readyOf utcDate ready).foldlM (fun byIdentity path => do
        addManifest byIdentity (← io (readManifest path))) byIdentity) s' := by
  refine (Reads.foldlM (J := fun rest byIdentity s'' => Undisturbed N s s'' ∧
    Finds s utcDate byIdentity fun manifest => manifest.manifestPath ∈ rest ∨
      s''.edge.acked.read manifest.tombstone ≠ none)
    (fun path rest byIdentity t ht hheld hpath hbefore => ?_) hs' ht' ⟨hsame, hfinds⟩).mono ?_
  · have hread : Reads N sha256 begun (fun content t => ∀ added ∈ content,
        added ∈ t.published ∧ path = added.manifestPath) (io (readManifest path)) t :=
      Reads.io (readManifest path) trivial fun t _ ht _ content hcontent =>
        ht.manifests path content (found_ok.mp hcontent)
    refine Reads.bind hread fun content u hu hsu htu hcontent => ?_
    have hsameu := hbefore.1.trans hu
    have hadd : Reads N sha256 begun (fun byIdentity _ => Finds s utcDate byIdentity fun manifest =>
        manifest.manifestPath ∈ rest ∨ u.edge.acked.read manifest.tombstone ≠ none)
        (addManifest byIdentity content) u := by
      refine reads_addManifest hsu htu hsameu (fun added hm => ?_) hbefore.2
        fun manifest hm _ hbefore => ?_
      · obtain ⟨hpublished, rfl⟩ := hcontent added hm
        exact ⟨hpublished, utcDate_of_readyOf (hsu.fits added hpublished) hpath⟩
      · rcases hbefore with hrest | hacked
        · rcases List.mem_cons.mp hrest with heq | hrest
          · refine .inl fun added hadded => ?_
            obtain ⟨hpublished, rfl⟩ := hcontent added hadded
            exact (hsu.fits added hpublished).asRef_eq
              (hsu.fits manifest (hsameu.published hm)) heq.symm
          · exact .inr (.inl hrest)
        · exact .inr (.inr (hu.tombstones _ hacked))
    refine hadd.mono ?_
    rintro result v ⟨hv, hsv, htv, hfound⟩
    refine ⟨hv, hsv, htv, fun byIdentity hok => ⟨hsameu.trans hv, fun manifest hm hdate => ?_⟩⟩
    exact (hfound byIdentity hok manifest hm hdate).imp_right
      (Or.imp_right (hv.tombstones _))
  · rintro result t ⟨ht, hst, htt, hfound⟩
    refine ⟨ht, hst, htt, fun byIdentity hok manifest hm hdate => ?_⟩
    refine ((hfound byIdentity hok).2 manifest hm hdate).imp_right ?_
    exact fun h => h.resolve_left List.not_mem_nil

/-- The loop over the tombstones. -/
theorem reads_acked (hs' : s'.Provenance N sha256) (ht' : s'.Tombstoned)
    (hsame : Undisturbed N s s') {acked : List (Int ×ₗ String)}
    (hfinds : Finds s utcDate byIdentity fun manifest => manifest.tombstone ∈ acked) :
    Reads N sha256 begun (fun byIdentity _ => Finds s utcDate byIdentity fun _ => False)
      ((ackedOf utcDate acked).foldlM (fun byIdentity name => do
        addManifest byIdentity (← io (readAcked utcDate name))) byIdentity) s' := by
  refine (Reads.foldlM (J := fun rest byIdentity s'' => Undisturbed N s s'' ∧
    Finds s utcDate byIdentity fun manifest => manifest.manifestPath.name ∈ rest)
    (fun name rest byIdentity t _ _ _ hbefore => ?_) hs' ht'
    ⟨hsame, fun manifest hm hdate => ?_⟩).mono ?_
  · have hread : Reads N sha256 begun (fun content t => ∀ added ∈ content,
        added ∈ t.published ∧ toLex (utcDate, name) = added.tombstone)
        (io (readAcked utcDate name)) t := by
      refine Reads.io (readAcked utcDate name) trivial fun t _ _ ht content hcontent => ?_
      obtain ⟨known, hknown, hsome, hkey⟩ := ht.acked _ content (found_ok.mp hcontent)
      rintro added hadded
      rw [hsome] at hadded
      cases hadded
      exact ⟨hknown, hkey⟩
    refine Reads.bind hread fun content u hu hsu htu hcontent => ?_
    have hsameu := hbefore.1.trans hu
    have hadd : Reads N sha256 begun (fun byIdentity _ => Finds s utcDate byIdentity fun manifest =>
        manifest.manifestPath.name ∈ rest) (addManifest byIdentity content) u := by
      refine reads_addManifest hsu htu hsameu (fun added hm => ?_) hbefore.2
        fun manifest hm hdate hbefore => ?_
      · obtain ⟨hpublished, hkey⟩ := hcontent added hm
        exact ⟨hpublished, (Prod.ext_iff.mp (toLex.injective hkey)).1.symm⟩
      · rcases List.mem_cons.mp hbefore with heq | hrest
        · refine .inl fun added hadded => ?_
          obtain ⟨hpublished, hkey⟩ := hcontent added hadded
          refine (hsu.fits added hpublished).asRef_eq_of_tombstone
            (hsu.fits manifest (hsameu.published hm)) ?_
          rw [← hkey, ← heq, ← hdate]
          rfl
        · exact .inr hrest
    refine hadd.mono ?_
    rintro result v ⟨hv, hsv, htv, hfound⟩
    exact ⟨hv, hsv, htv, fun byIdentity hok => ⟨hsameu.trans hv, hfound byIdentity hok⟩⟩
  · refine (hfinds manifest hm hdate).imp_right fun hacked => ?_
    refine List.mem_map.mpr ⟨manifest.tombstone, List.mem_filter.mpr ⟨hacked, ?_⟩, rfl⟩
    exact decide_eq_true hdate
  · rintro result t ⟨ht, hst, htt, hfound⟩
    refine ⟨ht, hst, htt, fun byIdentity hok manifest hm hdate => ?_⟩
    exact ((hfound byIdentity hok).2 manifest hm hdate).imp_right List.not_mem_nil

/-- `_read_refs` finds what has been published for a day that has a journal. -/
theorem reads_readRefs (hsame : Undisturbed N s s') (hopen : ¬ s.IsSealed utcDate)
    (hjournal : s.edge.dayIndex.read utcDate ≠ none ∨
      ∀ manifest ∈ s.published, manifest.utcDate ≠ utcDate) :
    Reads N sha256 begun (fun byIdentity _ => Finds s utcDate byIdentity fun _ => False)
      (readRefs utcDate) s' := by
  have hindex : Reads N sha256 begun (fun lines _ => lines = s.edge.dayIndex.read utcDate)
      (io (readIndex utcDate)) s' := by
    refine Reads.io (readIndex utcDate) trivial fun s₁ h₁ _ _ lines hread => ?_
    cases hread
    rw [h₁.dayIndex, hsame.dayIndex]
  refine Reads.bind hindex fun lines s₁ h₁ hs₁ ht₁ hlines => ?_
  cases lines with
  | none =>
    refine Reads.ret hs₁ ht₁ fun manifest hm hdate => ?_
    rcases hjournal with hjournal | hnone
    · exact absurd hlines.symm hjournal
    · exact absurd hdate (hnone manifest hm)
  | some lines =>
    have hready : Reads N sha256 begun (fun ready s' => ready = s'.edge.manifests.names)
        (io listManifests) s₁ :=
      Reads.io listManifests trivial fun _ _ _ _ ready hread => by cases hread; rfl
    refine Reads.bind hready fun ready s₂ h₂ hs₂ ht₂ hnames => ?_
    have hsame₂ := (hsame.trans h₁).trans h₂
    refine Reads.bind (reads_ready hs₂ ht₂ hsame₂ fun manifest hm hdate => .inr ?_)
      fun byIdentity s₃ h₃ hs₃ ht₃ hfound => ?_
    · rcases ht₂.held manifest (hsame₂.published hm) with hmanifest | hacked | hsealed
      · refine .inl (List.mem_filter.mpr ⟨?_, decide_eq_true ?_⟩)
        · rw [hnames]
          exact Folder.mem_names.mpr hmanifest
        · have hfits := hs₂.fits manifest (hsame₂.published hm)
          rw [hfits.manifestPath, ← hdate, hfits.utcDate]
          rfl
      · exact .inr hacked
      · rw [hdate] at hsealed
        exact absurd (hsame₂.isSealed_iff.mp hsealed) hopen
    · have hlist : Reads N sha256 begun (fun acked s' => acked = s'.edge.acked.names)
          (io listAcked) s₃ :=
        Reads.io listAcked trivial fun _ _ _ _ acked hread => by cases hread; rfl
      refine Reads.bind hlist fun acked s₄ h₄ hs₄ ht₄ hnames => ?_
      refine reads_acked hs₄ ht₄ ((hsame₂.trans h₃).trans h₄) fun manifest hm hdate => ?_
      refine (hfound manifest hm hdate).imp_right fun hacked => ?_
      rw [hnames]
      exact Folder.mem_names.mpr (h₄.tombstones _ hacked)

end ReadRefs

/-! ## The calls of the day index -/

namespace TransferOp

/-- Neither a sealed day nor a line of a journal is written. -/
def Unlisting : TransferOp → Prop
  | writeSealed _ | appendIndex _ _ => False
  | _ => True

def Seals : TransferOp → Prop
  | writeSealed _ => True
  | _ => False

/-- No day is sealed, and lines are written into the journal of one day. -/
def Enters (utcDate : Int) : TransferOp → Prop
  | writeSealed _ => False
  | appendIndex date _ => date = utcDate
  | _ => True

theorem Enters.not_seals {utcDate : Int} {op : TransferOp} (h : op.Enters utcDate) :
    ¬ op.Seals := by
  cases op <;> first | exact h.elim | exact id

theorem sealedDays_sem {op : TransferOp} (hop : ¬ op.Seals) {s s' : TransferFiles}
    {answer : op.Answer} (hsem : Sem sha256 op s answer s') :
    s'.edge.sealedDays = s.edge.sealedDays := by
  by_cases h : op.Guarded
  · have hrun : (TransferOp.run sha256 op s).2.edge.sealedDays = s.edge.sealedDays := by
      cases op with
      | writeSealed => exact absurd trivial hop
      | appendIndex => rfl
      | unlinkIndex utcDate =>
        exact ifFound_files (P := fun t => t.edge.sealedDays = s.edge.sealedDays) rfl fun _ _ => rfl
      | unlinkAcked utcDate name =>
        exact ifFound_files (P := fun t => t.edge.sealedDays = s.edge.sealedDays) rfl fun _ _ => rfl
      | _ => exact h.elim
    cases hsem with
    | done | failedLate => exact hrun
    | failed => rfl
    | tornAppend | partialSync => exact h.elim
  · exact (leaves_sem h hsem).1

end TransferOp

section Calls
variable {begun : Int → List ChunkManifest} {α : Type} {utcDate : Int} {s : TransferFiles}

theorem watch_of_unlisting {p : TransferProgram α} (hp : p.Each TransferOp.Unlisting)
    (s : TransferFiles) : (N.watch sha256 begun).Upholds (fun _ _ => True) p s :=
  Discipline.Upholds.of_each
    (fun op s hop _ => by cases op <;> first | exact hop.elim | trivial) hp s

theorem watch_of_enters {p : TransferProgram α} (hp : p.Each (TransferOp.Enters utcDate))
    (hopen : ¬ s.IsSealed utcDate) :
    (N.watch sha256 begun).Upholds (fun _ _ => True) p s := by
  induction p generalizing s with
  | ret | raise => trivial
  | call op next ih =>
    intro s₁ hsame _
    have hopen₁ : ¬ s₁.IsSealed utcDate := fun h => hopen (hsame.isSealed_iff.mp h)
    refine ⟨?_, fun r s₂ hsem => ih r (hp.2 r trivial) ?_⟩
    · cases op with
      | writeSealed => exact hp.1.elim
      | appendIndex date chunk =>
        have hdate : date = utcDate := hp.1
        subst hdate
        exact hopen₁
      | _ => trivial
    · rw [IsSealed, sealedDays_sem (TransferOp.Enters.not_seals hp.1) hsem.1]
      exact hopen₁

theorem reads_sealedExists (begun : Int → List ChunkManifest) (utcDate : Int)
    (s : TransferFiles) :
    Reads N sha256 begun (fun isSealed s' => isSealed = true ↔ s'.IsSealed utcDate)
      (io (sealedExists utcDate)) s :=
  Reads.io (sealedExists utcDate) trivial fun _ _ _ _ isSealed hread => by
    cases hread
    exact Option.isSome_iff_ne_none

theorem each_cleanSealedDayState (utcDate : Int) :
    (cleanSealedDayState utcDate).Each TransferOp.Unlisting := by
  refine Obeys.bind ?_ fun _ => Obeys.bind (Each.io trivial) fun acked =>
    Obeys.forM fun _ _ => Each.io trivial
  refine Obeys.bind (Each.io trivial) fun index => ?_
  split
  · exact Each.io trivial
  · trivial

theorem watch_sealDay (sealedAt : Int) (hbegun : ¬ s.IsSealed utcDate →
      begun utcDate ⊆ s.published ∧ (s.edge.dayIndex.read utcDate ≠ none ∨
        ∀ manifest ∈ s.published, manifest.utcDate ≠ utcDate)) :
    (N.watch sha256 begun).Upholds (fun _ _ => True) (sealDay N.collectorId utcDate sealedAt)
      s := by
  refine Discipline.Upholds.bind (reads_sealedExists begun utcDate s) ?_ fun _ _ _ => trivial
  rintro isSealed s₁ ⟨h₁, hs₁, ht₁, hsealed⟩
  split
  · exact watch_of_unlisting (each_cleanSealedDayState utcDate) s₁
  · rename_i hfalse
    have hopen : ¬ s.IsSealed utcDate := fun h =>
      hfalse ((hsealed isSealed rfl).mpr (h₁.isSealed_iff.mpr h))
    obtain ⟨hsubset, hjournal⟩ := hbegun hopen
    refine Discipline.Upholds.bind (reads_readRefs h₁ hopen hjournal) ?_ fun _ _ _ => trivial
    rintro byIdentity s₂ ⟨h₂, -, -, hfound⟩
    dsimp only
    split
    · refine Discipline.Upholds.bind (Q := fun _ _ => True)
        (Discipline.upholds_io fun s₃ h₃ _ => ⟨⟨fun h => ?_, ?_⟩, fun _ _ _ => trivial⟩)
        (fun _ s₄ _ => watch_of_unlisting (each_cleanSealedDayState utcDate) s₄) fun _ _ h => h
      · exact hopen (((h₁.trans h₂).trans h₃).isSealed_iff.mp h)
      · intro manifest hm hdate
        exact ((hfound byIdentity rfl manifest (hsubset hm) hdate).resolve_right id).mem_sortedRefs
    · trivial

theorem watch_record (chunk : ChunkRef) :
    (N.watch sha256 begun).Upholds (fun _ _ => True) (record utcDate chunk) s := by
  refine Discipline.Upholds.bind (reads_sealedExists begun utcDate s) ?_ fun _ _ _ => trivial
  rintro isSealed s₁ ⟨-, -, -, hsealed⟩
  split
  · trivial
  · rename_i hfalse
    exact watch_of_enters (Each.io rfl) fun h => hfalse ((hsealed isSealed rfl).mpr h)

theorem each_publish (draft : ChunkDraft) (content : Bytes) :
    (draft.publish sha256 content).Each (TransferOp.Enters utcDate) := by
  refine Obeys.bind (Each.io trivial) fun _ => Obeys.bind (Each.io trivial) fun stored => ?_
  split
  · exact Obeys.bind (Each.io trivial) fun _ => trivial
  · trivial

theorem watch_publishGap (encode : GapEvent → Bytes) (write : GapWrite) (retriedAt : Int) :
    (N.watch sha256 begun).Upholds (fun _ _ => True) (publishGap sha256 encode write retriedAt)
      s := by
  have heach : ∀ create : TransferProgram ChunkManifest,
      create.Each (TransferOp.Enters (utcDateOf write.event.effectiveNs)) →
        (generateAndRecord (utcDateOf write.event.effectiveNs) create).Each
          (TransferOp.Enters (utcDateOf write.event.effectiveNs)) := by
    intro create hcreate
    refine Obeys.bind hcreate fun manifest => ?_
    split
    · trivial
    · exact Each.io rfl
  refine Discipline.Upholds.bind
    (reads_sealedExists begun (utcDateOf write.event.effectiveNs) s) ?_ fun _ _ _ => trivial
  rintro isSealed s₁ ⟨-, -, -, hsealed⟩
  split
  · trivial
  · rename_i hfalse
    refine watch_of_enters
      (Obeys.bind (Obeys.attempt (heach _ (each_publish _ _))) fun result => ?_)
      fun h => hfalse ((hsealed isSealed rfl).mpr h)
    split
    · trivial
    · exact heach _ (each_publish _ _)
    · trivial

end Calls

/-! ## The programs without the lock -/

/-- The program calls none of the operations that the lock guards. -/
abbrev Unlocked {α : Type} (p : TransferProgram α) : Prop := p.Each fun op => ¬ op.Guarded

theorem unlocked_of_free {α : Type} {p : TransferProgram α} (hp : p.Each Naming.Free) :
    Unlocked p :=
  Obeys.mono (fun op hop h => by cases op <;> first | exact h | exact hop) id hp

theorem unlocked_finish (session : ChunkSession) : Unlocked (session.finish sha256) := by
  unfold ChunkSession.finish
  split
  · trivial
  · refine Obeys.bind (Each.io id) fun _ => Obeys.bind (Each.io id) fun stored => ?_
    split
    · exact Obeys.bind (Each.io id) fun _ => trivial
    · trivial

namespace ApplyCall
variable (call : ApplyCall)

theorem unlocked_acceptAck (progress : ApplyProgress) (name : String) :
    Unlocked (call.acceptAck progress name) := by
  have hreject : ∀ (progress : ApplyProgress) reason count event,
      Unlocked (progress.reject name reason count event) :=
    fun _ _ _ _ => Obeys.bind (Each.io id) fun _ => trivial
  refine Obeys.bind (Obeys.attempt (Each.io id)) fun result => ?_
  split
  · exact hreject _ _ _ _
  · split
    · exact hreject _ _ _ _
    · split
      · refine Obeys.bind (unlocked_of_free (call.each_ackedManifest _ _)) fun known => ?_
        obtain ⟨known, errors, events⟩ := known
        cases known with
        | none => exact hreject _ _ _ _
        | some manifest =>
          dsimp only
          split
          · exact hreject _ _ _ _
          · exact Obeys.bind (Each.io id) fun _ => trivial
      · split
        · exact hreject _ _ _ _
        · refine Obeys.bind (Each.io id) fun present => ?_
          split
          · refine Obeys.bind (Obeys.attempt (Each.io id)) fun content => ?_
            dsimp only
            split
            · exact Obeys.bind (Each.io id) fun _ => trivial
            · exact hreject _ _ _ _
          · exact Obeys.bind (Each.io id) fun _ => Obeys.bind (Each.io id) fun _ => trivial

theorem unlocked_applyTransaction (progress : ApplyProgress) (name : String) :
    Unlocked (call.applyTransaction progress name) := by
  have hreject : ∀ reason count event,
      Unlocked (progress.rejectTransaction name reason count event) :=
    fun _ _ _ => Obeys.bind (Each.io id) fun _ => trivial
  refine Obeys.bind (Obeys.attempt (Each.io id)) fun result => ?_
  split
  · exact hreject _ _ _
  · dsimp only
    split
    · exact hreject _ _ _
    · refine Obeys.bind (Each.io id) fun _ => Obeys.bind (Each.io id) fun _ =>
        Obeys.bind ?_ fun _ => Obeys.bind ?_ fun _ => trivial
      · refine Obeys.bind (Obeys.bind (Each.io id) fun present => ?_) fun isSealed => ?_
        · split
          · exact Each.io id
          · trivial
        · split
          · exact Each.io id
          · refine Obeys.bind (Each.io id) fun present => ?_
            split
            · exact Each.io id
            · trivial
      · refine Obeys.bind (Each.io id) fun present => ?_
        split
        · exact Each.io id
        · trivial

theorem unlocked_applyAcks : Unlocked call.applyAcks := by
  refine Obeys.bind (Each.io id) fun ackPaths => Obeys.bind (Each.io id) fun paths => ?_
  split
  · trivial
  · refine Obeys.bind (Obeys.bind (Each.io id) fun paths => Obeys.foldlM fun scan path _ =>
      Obeys.bind (Obeys.attempt (Each.io id)) fun _ => trivial) fun scan => ?_
    refine Obeys.bind (Obeys.foldlM fun progress name _ => call.unlocked_acceptAck progress name)
      fun progress => ?_
    refine Obeys.bind (Obeys.foldlM fun progress name _ =>
      call.unlocked_applyTransaction progress name) fun progress => ?_
    exact unlocked_of_free (call.each_finishCall _)

end ApplyCall

namespace PullCall
variable (call : PullCall)

theorem unlocked_ingestChunk (path : RelPath) : Unlocked (call.ingestChunk sha256 path) := by
  refine Obeys.bind (Each.io id) fun content => Obeys.bind
    (unlocked_of_free (each_validateManifest content)) fun manifest => Obeys.bind
    (unlocked_of_free (each_checkCollector _)) fun _ => Obeys.bind ?_ fun wroteData =>
    Obeys.bind ?_ fun _ => Obeys.bind (Each.io id) fun _ => trivial
  · refine Obeys.bind (Each.io id) fun present => ?_
    split
    · refine Obeys.bind (Each.io id) fun content => ?_
      split <;> trivial
    · split
      · exact Obeys.bind (Each.io id) fun _ => trivial
      · exact Obeys.bind (Each.io id) fun _ => Obeys.bind (Each.io id) fun _ => trivial
  · refine Obeys.bind (Each.io id) fun existing => ?_
    split
    · split <;> trivial
    · exact Each.io id

theorem unlocked_chunksStored (collectorId : String) (chunks : List ChunkRef) :
    Unlocked (chunksStored sha256 collectorId chunks) := by
  induction chunks with
  | nil => trivial
  | cons chunk chunks ih =>
    refine Obeys.bind (Each.io id) fun present => ?_
    split
    · refine Obeys.bind (Each.io id) fun content => ?_
      split
      · trivial
      · split
        · trivial
        · exact ih
    · trivial

theorem unlocked_run : Unlocked (call.run sha256) := by
  refine Obeys.bind (Each.io id) fun manifests => Obeys.bind (Each.io id) fun dates =>
    Obeys.bind (Obeys.foldlM fun result path _ => ?_) fun result =>
      Obeys.foldlM fun result utcDate _ => ?_
  · refine Obeys.bind (Obeys.attempt (call.unlocked_ingestChunk path)) fun chunk => ?_
    split <;> trivial
  · refine Obeys.bind (Obeys.attempt ?_) fun published => ?_
    · refine Obeys.bind (Each.io id) fun day => Obeys.bind
        (unlocked_of_free (each_checkCollector _)) fun _ =>
          Obeys.bind (Each.io id) fun existing => ?_
      split
      · split <;> trivial
      · refine Obeys.bind (unlocked_chunksStored _ _) fun stored => ?_
        split
        · exact Obeys.bind (Each.io id) fun _ => trivial
        · trivial
    · split <;> trivial

end PullCall

end MiryFormal
