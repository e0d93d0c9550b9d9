import MiryFormal.Shared.Fallible
import MiryFormal.Shared.FlatJson
import MiryFormal.Transfer.Publication

/-!
# The day index on disk

`DayIndex` appends one canonical JSON line for each chunk and reads the lines back to seal the
day. An append may end after any number of its bytes. `canonical_json_bytes` is written out for
a `ChunkRef`; the validation of a line is a parameter.
-/

namespace MiryFormal

set_option autoImplicit false

open FlatJson

def ContentType.value : ContentType → String
  | parquet => "application/vnd.apache.parquet"
  | gapJson => "application/vnd.ft-shadow.gap+json"

/-- An append of `_record`: how much of its line reaches the file, or nothing if the journal
was not opened. -/
structure IndexAppend where
  chunk : ChunkRef
  persisted : Option Nat
  deriving DecidableEq

/-- The files of one UTC day that its index reads and writes. -/
structure DayIndexFiles where
  journal : Option Bytes := none
  ready : List ChunkManifest := []
  ackedManifests : List ChunkManifest := []
  sealed : Option DayManifest := none

section Journal
variable (pathText : RelPath → String) (validateJson : Bytes → Option ChunkRef)

/-- `canonical_json_bytes(chunk)` without its line break; the keys are sorted. -/
def refText (chunk : ChunkRef) : Bytes :=
  writeObject ("chunk_id", writeString chunk.chunkId)
    [("content_type", writeString chunk.contentType.value),
      ("data_path", writeString (pathText chunk.dataPath)),
      ("sha256", writeString chunk.sha256),
      ("size_bytes", writeNat chunk.sizeBytes)]

/-- `canonical_json_bytes(chunk)` -/
def refLine (chunk : ChunkRef) : Bytes := refText pathText chunk ++ [newline]

/-- `CHUNK_REF_ADAPTER.validate_json(line)` -/
def validateLine (line : Bytes) : Except String ChunkRef :=
  match validateJson line with
  | some chunk => .ok chunk
  | none => .error "ValidationError"

namespace IndexAppend
variable (append : IndexAppend)

def written : Bytes :=
  match append.persisted with
  | none => []
  | some count => (refLine pathText append.chunk).take count

/-- The journal line was written completely. -/
def Complete : Prop := append.written pathText = refLine pathText append.chunk

instance : Decidable (append.Complete pathText) :=
  inferInstanceAs (Decidable (append.written pathText = refLine pathText append.chunk))

end IndexAppend

namespace DayIndexFiles

/-- `record`, which raises once the day is sealed. -/
def record (files : DayIndexFiles) (append : IndexAppend) : DayIndexFiles :=
  if files.sealed.isSome ∨ append.persisted = none then files
  else { files with journal := some (files.journal.getD [] ++ append.written pathText) }

/-- `_read_refs` -/
def readRefs (files : DayIndexFiles) : Except String (List ChunkRef) :=
  match files.journal with
  | none => .ok []
  | some bytes => do
      let refs ← (lines bytes).mapM (validateLine validateJson)
      let manifests := files.ready ++ files.ackedManifests
      return sortedRefs ((refs ++ manifests.map ChunkManifest.asRef).foldl addRef [])

/-- `_clean_sealed_day_state` -/
def cleanSealedDayState (files : DayIndexFiles) : DayIndexFiles :=
  { files with journal := none, ackedManifests := [] }

/-- `_seal`: the manifest of the day and the files that are left. -/
def sealDay (collectorId : String) (utcDate sealedAt : Int) (files : DayIndexFiles) :
    Except String (DayManifest × DayIndexFiles) :=
  match files.sealed with
  | some manifest => .ok (manifest, files.cleanSealedDayState)
  | none => do
      let chunks ← files.readRefs validateJson
      if h : (chunks.map fun chunk => (chunk.chunkId, chunk.sha256)).Nodup ∧
          utcDate < sealedAt / (86400 * 1000000) then
        let manifest : DayManifest := ⟨collectorId, utcDate, sealedAt, chunks, h.1, h.2⟩
        return (manifest, { files with sealed := some manifest }.cleanSealedDayState)
      else .error "ValidationError"

end DayIndexFiles

/-- Every append persists nothing or its whole line, but for a last one that may lack the line
break. -/
def Readable : List IndexAppend → Prop
  | [] => True
  | append :: later =>
      if append.written pathText = [] ∨ append.Complete pathText then Readable later
      else append.written pathText = refText pathText append.chunk ∧
        ∀ other ∈ later, other.written pathText = []

instance decidableReadable : ∀ appends, Decidable (Readable pathText appends)
  | [] => .isTrue trivial
  | append :: later =>
      have := decidableReadable later
      inferInstanceAs (Decidable (if append.written pathText = [] ∨ append.Complete pathText
        then Readable pathText later
        else append.written pathText = refText pathText append.chunk ∧
          ∀ other ∈ later, other.written pathText = []))

end Journal

/-! ## Lines of the journal -/

section Lines
variable (pathText : RelPath → String)

theorem compact_refText (chunk : ChunkRef) : Compact (refText pathText chunk) := by
  apply compact_writeObject (value_writeString _)
  simp only [List.forall_mem_cons, value_writeString, value_writeNat, true_and]
  nofun

theorem newline_notMem_refText (chunk : ChunkRef) : newline ∉ refText pathText chunk := by
  apply newline_notMem_writeObject (newline_notMem_writeString _)
  simp only [List.forall_mem_cons, newline_notMem_writeString, newline_notMem_writeNat,
    not_false_eq_true, true_and]
  nofun

theorem refText_ne_nil (chunk : ChunkRef) : refText pathText chunk ≠ [] := List.cons_ne_nil _ _

theorem refLine_ne_nil (chunk : ChunkRef) : refLine pathText chunk ≠ [] :=
  List.concat_ne_nil _ _

theorem writeString_chunkId : writeString "chunk_id" =
    quote :: 99 :: [104, 117, 110, 107, 95, 105, 100, quote] := by decide

/-- Each line begins with its first key. -/
theorem refLine_eq (chunk : ChunkRef) :
    ∃ text, refLine pathText chunk = openBrace :: quote :: 99 :: text := by
  unfold refLine refText writeObject writeMembers writeMember
  rw [writeString_chunkId]
  exact ⟨_, rfl⟩

/-- What a list of appends leaves in the journal. -/
def journalBytes (appends : List IndexAppend) : Bytes :=
  appends.flatMap fun append => append.written pathText

theorem journalBytes_cons (append : IndexAppend) (later : List IndexAppend) :
    journalBytes pathText (append :: later) =
      append.written pathText ++ journalBytes pathText later :=
  List.flatMap_cons

theorem beginnings_journalBytes (appends : List IndexAppend) :
    Beginnings (journalBytes pathText appends) := by
  induction appends with
  | nil => exact .nil
  | cons append later ih =>
    rw [journalBytes_cons]
    unfold IndexAppend.written
    cases append.persisted with
    | none => exact ih
    | some count =>
      obtain ⟨text, htext⟩ := refLine_eq pathText append.chunk
      rw [htext]
      exact Beginnings.take (by decide) ih count

theorem journalBytes_eq_nil {appends : List IndexAppend} :
    journalBytes pathText appends = [] ↔ ∀ append ∈ appends, append.written pathText = [] :=
  List.flatMap_eq_nil_iff

/-- A torn append is a part of its text or lacks the line break alone. -/
theorem IndexAppend.written_torn {append : IndexAppend} (hne : append.written pathText ≠ [])
    (hincomplete : ¬ append.Complete pathText) :
    append.written pathText = refText pathText append.chunk ∨
      ∃ rest, rest ≠ [] ∧ append.written pathText ++ rest = refText pathText append.chunk := by
  unfold Complete at hincomplete
  unfold written at hne hincomplete ⊢
  cases hpersisted : append.persisted with
  | none =>
    rw [hpersisted] at hne
    exact absurd rfl hne
  | some count =>
    rw [hpersisted] at hincomplete
    by_cases hlt : count < (refText pathText append.chunk).length
    · right
      refine ⟨(refText pathText append.chunk).drop count, ?_, ?_⟩
      · rw [ne_eq, List.drop_eq_nil_iff]
        omega
      · dsimp only
        rw [refLine, List.take_append_of_le_length hlt.le, List.take_append_drop]
    · left
      have hcount : count = (refText pathText append.chunk).length := by
        by_contra hdiffers
        apply hincomplete
        apply List.take_of_length_le
        rw [refLine, List.length_append, List.length_singleton]
        omega
      dsimp only
      rw [refLine, hcount, List.take_left]

/-- A torn line is read together with what was appended behind it, and that is no object. -/
theorem not_flatObject_torn {append : IndexAppend} {later : List IndexAppend}
    (hne : append.written pathText ≠ []) (hincomplete : ¬ append.Complete pathText)
    (h : ¬ (append.written pathText = refText pathText append.chunk ∧
      ∀ other ∈ later, other.written pathText = [])) :
    newline ∉ append.written pathText ∧
      ¬ FlatObject (append.written pathText ++ firstLine (journalBytes pathText later)) := by
  have hcompact := compact_refText pathText append.chunk
  have hnewline := newline_notMem_refText pathText append.chunk
  have hlater := beginnings_journalBytes pathText later
  cases append.written_torn pathText hne hincomplete with
  | inl hwhole =>
    rw [hwhole]
    refine ⟨hnewline, hcompact.joined hlater.firstLine (hlater.firstLine_ne fun hnil => ?_)⟩
    exact h ⟨hwhole, (journalBytes_eq_nil pathText).mp hnil⟩
  | inr hpart =>
    obtain ⟨rest, hrest, htext⟩ := hpart
    rw [← htext] at hcompact hnewline
    exact ⟨fun hm => hnewline (List.mem_append_left _ hm),
      hcompact.torn hne hrest hlater.firstLine⟩

end Lines

/-- What is assumed of `validate_json`: it raises unless the line is an object of scalars, and it
reads back what was written, with the line break or without. -/
structure Validates (pathText : RelPath → String) (validateJson : Bytes → Option ChunkRef)
    (appends : List IndexAppend) : Prop where
  object : ∀ line chunk, validateJson line = some chunk → FlatObject line
  line : ∀ append ∈ appends, validateJson (refLine pathText append.chunk) = some append.chunk
  text : ∀ append ∈ appends, validateJson (refText pathText append.chunk) = some append.chunk

theorem readable_of_empty {pathText : RelPath → String} {appends : List IndexAppend}
    (h : ∀ append ∈ appends, append.written pathText = []) : Readable pathText appends := by
  induction appends with
  | nil => trivial
  | cons append later ih =>
    rw [Readable, if_pos (.inl (h append List.mem_cons_self))]
    exact ih fun other hm => h other (List.mem_cons_of_mem _ hm)

section Read
variable {pathText : RelPath → String} {validateJson : Bytes → Option ChunkRef}
  {append : IndexAppend} {appends later : List IndexAppend}

theorem Validates.tail (h : Validates pathText validateJson (append :: later)) :
    Validates pathText validateJson later :=
  ⟨h.object, fun other hm => h.line other (List.mem_cons_of_mem _ hm),
    fun other hm => h.text other (List.mem_cons_of_mem _ hm)⟩

theorem validateLine_ok {line : Bytes} {chunk : ChunkRef} (h : validateJson line = some chunk) :
    validateLine validateJson line = .ok chunk := by
  rw [validateLine, h]

theorem Validates.validateLine_error (h : Validates pathText validateJson appends) {line : Bytes}
    (hline : ¬ FlatObject line) : validateLine validateJson line = .error "ValidationError" := by
  cases hchunk : validateJson line with
  | none => rw [validateLine, hchunk]
  | some chunk => exact absurd (h.object line chunk hchunk) hline

/-- The journal in front of complete lines and nothing else. -/
theorem lines_journalBytes_complete (h : append.Complete pathText) :
    lines (journalBytes pathText (append :: later)) =
      refLine pathText append.chunk :: lines (journalBytes pathText later) := by
  rw [journalBytes_cons, h, refLine, List.append_assoc]
  exact lines_line (newline_notMem_refText pathText append.chunk) _

theorem mapM_readable (hvalidates : Validates pathText validateJson appends)
    (h : Readable pathText appends) :
    ∃ refs, (lines (journalBytes pathText appends)).mapM (validateLine validateJson) = .ok refs ∧
      ∀ append ∈ appends, append.Complete pathText → append.chunk ∈ refs := by
  induction appends with
  | nil => exact ⟨[], rfl, nofun⟩
  | cons append later ih =>
    rw [Readable] at h
    by_cases hempty : append.written pathText = []
    · rw [if_pos (.inl hempty)] at h
      obtain ⟨refs, hrefs, hlisted⟩ := ih hvalidates.tail h
      refine ⟨refs, ?_, ?_⟩
      · rw [journalBytes_cons, hempty, List.nil_append]
        exact hrefs
      · intro other hm hother
        cases List.mem_cons.mp hm with
        | inl heq =>
          subst heq
          exact absurd (hother.symm.trans hempty) (refLine_ne_nil pathText _)
        | inr hm => exact hlisted other hm hother
    · by_cases hcomplete : append.Complete pathText
      · rw [if_pos (.inr hcomplete)] at h
        obtain ⟨refs, hrefs, hlisted⟩ := ih hvalidates.tail h
        refine ⟨append.chunk :: refs, ?_, ?_⟩
        · rw [lines_journalBytes_complete hcomplete, List.mapM_cons,
            validateLine_ok (hvalidates.line append List.mem_cons_self), hrefs]
          rfl
        · intro other hm hother
          cases List.mem_cons.mp hm with
          | inl heq =>
            subst heq
            exact List.mem_cons_self
          | inr hm => exact List.mem_cons_of_mem _ (hlisted other hm hother)
      · rw [if_neg (not_or.mpr ⟨hempty, hcomplete⟩)] at h
        obtain ⟨htext, hnone⟩ := h
        refine ⟨[append.chunk], ?_, ?_⟩
        · rw [journalBytes_cons, htext, (journalBytes_eq_nil pathText).mpr hnone,
            lines_append (refText_ne_nil pathText _) (newline_notMem_refText pathText _)]
          have hfirst : firstLine [] = [] := rfl
          rw [hfirst, List.append_nil, List.mapM_cons,
            validateLine_ok (hvalidates.text append List.mem_cons_self)]
          rfl
        · intro other hm hother
          cases List.mem_cons.mp hm with
          | inl heq =>
            subst heq
            exact absurd hother hcomplete
          | inr hm => exact absurd (hother.symm.trans (hnone other hm)) (refLine_ne_nil pathText _)

theorem mapM_torn (hvalidates : Validates pathText validateJson appends)
    (h : ¬ Readable pathText appends) :
    (lines (journalBytes pathText appends)).mapM (validateLine validateJson) =
      .error "ValidationError" := by
  induction appends with
  | nil => exact absurd trivial h
  | cons append later ih =>
    rw [Readable] at h
    by_cases hempty : append.written pathText = []
    · rw [if_pos (.inl hempty)] at h
      rw [journalBytes_cons, hempty, List.nil_append]
      exact ih hvalidates.tail h
    · by_cases hcomplete : append.Complete pathText
      · rw [if_pos (.inr hcomplete)] at h
        rw [lines_journalBytes_complete hcomplete, List.mapM_cons,
          validateLine_ok (hvalidates.line append List.mem_cons_self), ih hvalidates.tail h]
        rfl
      · rw [if_neg (not_or.mpr ⟨hempty, hcomplete⟩)] at h
        obtain ⟨hnewline, hobject⟩ := not_flatObject_torn pathText hempty hcomplete h
        rw [journalBytes_cons, lines_append hempty hnewline, List.mapM_cons,
          hvalidates.validateLine_error hobject]
        rfl

end Read

/-! ## The inventory -/

def ChunkRef.identity (chunk : ChunkRef) : String × String := (chunk.chunkId, chunk.sha256)

/-- `by_identity`: each reference under its own identity, each identity once. -/
structure Inventory (byIdentity : List ((String × String) × ChunkRef)) : Prop where
  keyed : ∀ entry ∈ byIdentity, entry.1 = entry.2.identity
  distinct : KeyedDict.Distinct id byIdentity

section Inventory
variable {byIdentity : List ((String × String) × ChunkRef)}

theorem Inventory.nil : Inventory [] := by
  constructor
  · intro entry hm
    cases hm
  · exact List.nodup_nil

theorem Inventory.addRef (h : Inventory byIdentity) (chunk : ChunkRef) :
    Inventory (addRef byIdentity chunk) := by
  constructor
  · intro entry hm
    cases KeyedDict.mem_set hm with
    | inl hold => exact h.keyed entry hold
    | inr hnew =>
      obtain ⟨hkey, hvalue⟩ := hnew
      rw [hvalue]
      exact hkey
  · exact KeyedDict.distinct_set h.distinct _ _

theorem Inventory.foldl (h : Inventory byIdentity) (refs : List ChunkRef) :
    Inventory (refs.foldl MiryFormal.addRef byIdentity) := by
  induction refs generalizing byIdentity with
  | nil => exact h
  | cons chunk refs ih => exact ih (h.addRef chunk)

theorem Inventory.nodup (h : Inventory byIdentity) :
    ((sortedRefs byIdentity).map fun chunk => (chunk.chunkId, chunk.sha256)).Nodup := by
  have hperm := List.perm_insertionSort (fun a b => toLex a.1 ≤ toLex b.1) byIdentity
  have hkeys : (sortedRefs byIdentity).map (fun chunk => (chunk.chunkId, chunk.sha256)) =
      (byIdentity.insertionSort fun a b => toLex a.1 ≤ toLex b.1).map Prod.fst := by
    rw [sortedRefs, List.map_map]
    apply List.map_congr_left
    intro entry hm
    exact (h.keyed entry (hperm.mem_iff.mp hm)).symm
  rw [hkeys, (hperm.map _).nodup_iff]
  exact h.distinct

theorem Inventory.exists_ref (h : Inventory byIdentity) {identity : String × String}
    (hget : KeyedDict.get id identity byIdentity ≠ none) :
    ∃ listed ∈ sortedRefs byIdentity, listed.identity = identity := by
  obtain ⟨listed, hlisted⟩ := Option.ne_none_iff_exists'.mp hget
  obtain ⟨key, hm, hkey⟩ := KeyedDict.mem_of_get hlisted
  exact ⟨listed, mem_sortedRefs.mpr ⟨_, hm, rfl⟩, (h.keyed _ hm).symm.trans hkey⟩

theorem get_foldl_addRef_kept (refs : List ChunkRef) {identity : String × String}
    (h : KeyedDict.get id identity byIdentity ≠ none) :
    KeyedDict.get id identity (refs.foldl addRef byIdentity) ≠ none := by
  induction refs generalizing byIdentity with
  | nil => exact h
  | cons chunk refs ih =>
    apply ih
    rw [addRef, KeyedDict.get_set]
    split
    · nofun
    · exact h

theorem get_foldl_addRef {refs : List ChunkRef} {chunk : ChunkRef} (hm : chunk ∈ refs) :
    KeyedDict.get id chunk.identity (refs.foldl addRef byIdentity) ≠ none := by
  induction refs generalizing byIdentity with
  | nil => cases hm
  | cons first refs ih =>
    cases List.mem_cons.mp hm with
    | inl heq =>
      subst heq
      rw [List.foldl_cons]
      apply get_foldl_addRef_kept
      have hidentity : id (chunk.chunkId, chunk.sha256) = chunk.identity := rfl
      rw [addRef, KeyedDict.get_set, if_pos hidentity]
      nofun
    | inr hm => exact ih hm

end Inventory

/-! ## Sealing -/

/-- The manifest lists the chunk, by its id and its hash. -/
def DayManifest.Lists (manifest : DayManifest) (chunk : ChunkRef) : Prop :=
  ∃ listed ∈ manifest.chunks, listed.identity = chunk.identity

namespace DayIndexFiles

section Record
variable (pathText : RelPath → String) (files : DayIndexFiles) (appends : List IndexAppend)

/-- The index after some calls of `record`. -/
def recordAll : DayIndexFiles := appends.foldl (record pathText) files

theorem record_manifests (append : IndexAppend) :
    (files.record pathText append).ready = files.ready ∧
      (files.record pathText append).ackedManifests = files.ackedManifests ∧
        (files.record pathText append).sealed = files.sealed := by
  unfold record
  split
  · exact ⟨rfl, rfl, rfl⟩
  · exact ⟨rfl, rfl, rfl⟩

theorem recordAll_manifests :
    (files.recordAll pathText appends).ready = files.ready ∧
      (files.recordAll pathText appends).ackedManifests = files.ackedManifests ∧
        (files.recordAll pathText appends).sealed = files.sealed := by
  induction appends generalizing files with
  | nil => exact ⟨rfl, rfl, rfl⟩
  | cons append later ih =>
    obtain ⟨hready, hacked, hsealed⟩ := files.record_manifests pathText append
    obtain ⟨hready', hacked', hsealed'⟩ := ih (files.record pathText append)
    exact ⟨hready'.trans hready, hacked'.trans hacked, hsealed'.trans hsealed⟩

theorem recordAll_journal (hopen : files.sealed = none) :
    ((files.recordAll pathText appends).journal = none ↔
        files.journal = none ∧ ∀ append ∈ appends, append.persisted = none) ∧
      (files.recordAll pathText appends).journal.getD [] =
        files.journal.getD [] ++ journalBytes pathText appends := by
  induction appends generalizing files with
  | nil => exact ⟨⟨fun h => ⟨h, nofun⟩, fun h => h.1⟩, (List.append_nil _).symm⟩
  | cons append later ih =>
    have hsealed := (files.record_manifests pathText append).2.2.trans hopen
    obtain ⟨hnone, hbytes⟩ := ih _ hsealed
    have hjournal : ((files.record pathText append).journal = none ↔
          files.journal = none ∧ append.persisted = none) ∧
        (files.record pathText append).journal.getD [] =
          files.journal.getD [] ++ append.written pathText := by
      unfold record
      by_cases hpersisted : append.persisted = none
      · rw [if_pos (.inr hpersisted), IndexAppend.written, hpersisted]
        exact ⟨⟨fun h => ⟨h, rfl⟩, fun h => h.1⟩, (List.append_nil _).symm⟩
      · have hnot : ¬ (files.sealed.isSome ∨ append.persisted = none) := by
          rw [hopen]
          exact not_or.mpr ⟨nofun, hpersisted⟩
        rw [if_neg hnot]
        exact ⟨⟨nofun, fun h => absurd h.2 hpersisted⟩, rfl⟩
    constructor
    · apply hnone.trans
      rw [hjournal.1, List.forall_mem_cons, and_assoc]
    · apply hbytes.trans
      rw [hjournal.2, journalBytes_cons, List.append_assoc]

/-- A journal that was opened holds what was written, and nothing else. -/
theorem recordAll_opened (hopen : files.sealed = none) (hjournal : files.journal = none)
    (hopened : ∃ append ∈ appends, append.persisted ≠ none) :
    (files.recordAll pathText appends).journal = some (journalBytes pathText appends) := by
  obtain ⟨hnone, hbytes⟩ := files.recordAll_journal pathText appends hopen
  cases hafter : (files.recordAll pathText appends).journal with
  | none =>
    obtain ⟨append, hm, hpersisted⟩ := hopened
    exact absurd ((hnone.mp hafter).2 append hm) hpersisted
  | some bytes =>
    rw [hafter, hjournal] at hbytes
    exact congrArg some hbytes

end Record

section Seal
variable {pathText : RelPath → String} {validateJson : Bytes → Option ChunkRef}
  {appends : List IndexAppend} {files : DayIndexFiles}

theorem readRefs_some {bytes : Bytes} (hjournal : files.journal = some bytes)
    {refs : List ChunkRef} (hrefs : (lines bytes).mapM (validateLine validateJson) = .ok refs) :
    files.readRefs validateJson = .ok (sortedRefs
      ((refs ++ (files.ready ++ files.ackedManifests).map ChunkManifest.asRef).foldl addRef [])) := by
  unfold readRefs
  rw [hjournal]
  exact bind_eq hrefs rfl

theorem sealDay_ok (collectorId : String) {utcDate sealedAt : Int} (hopen : files.sealed = none)
    (hended : utcDate < sealedAt / (86400 * 1000000)) {chunks : List ChunkRef}
    (hrefs : files.readRefs validateJson = .ok chunks)
    (hunique : (chunks.map fun chunk => (chunk.chunkId, chunk.sha256)).Nodup) :
    ∃ manifest after, files.sealDay validateJson collectorId utcDate sealedAt =
      .ok (manifest, after) ∧ manifest.chunks = chunks := by
  unfold sealDay
  rw [hopen]
  simp only [hrefs, bind, Except.bind, dif_pos (And.intro hunique hended)]
  exact ⟨_, _, rfl, rfl⟩

/-- The seal returns, and lists the chunks of the manifests and of the complete lines. -/
def SealsAll (pathText : RelPath → String) (validateJson : Bytes → Option ChunkRef)
    (collectorId : String) (utcDate sealedAt : Int) (files : DayIndexFiles)
    (appends : List IndexAppend) : Prop :=
  ∃ manifest after, files.sealDay validateJson collectorId utcDate sealedAt =
      .ok (manifest, after) ∧
    (∀ stored ∈ files.ready ++ files.ackedManifests, manifest.Lists stored.asRef) ∧
      ∀ append ∈ appends, append.Complete pathText → manifest.Lists append.chunk

variable {collectorId : String} {utcDate sealedAt : Int}

/-- A journal that can be read is sealed with everything that it and the manifests name. -/
theorem sealsAll_readable (hvalidates : Validates pathText validateJson appends)
    (hended : utcDate < sealedAt / (86400 * 1000000)) (hopen : files.sealed = none)
    (hjournal : files.journal = some (journalBytes pathText appends))
    (h : Readable pathText appends) :
    SealsAll pathText validateJson collectorId utcDate sealedAt files appends := by
  obtain ⟨refs, hrefs, hcomplete⟩ := mapM_readable hvalidates h
  have hinventory : Inventory ((refs ++
      (files.ready ++ files.ackedManifests).map ChunkManifest.asRef).foldl addRef []) :=
    Inventory.nil.foldl _
  obtain ⟨manifest, after, hseal, hchunks⟩ := sealDay_ok collectorId hopen hended
    (readRefs_some hjournal hrefs) hinventory.nodup
  refine ⟨manifest, after, hseal, fun stored hm => ?_, fun append hm hwritten => ?_⟩
  · unfold DayManifest.Lists
    rw [hchunks]
    apply hinventory.exists_ref
    exact get_foldl_addRef (List.mem_append_right _ (List.mem_map_of_mem hm))
  · unfold DayManifest.Lists
    rw [hchunks]
    apply hinventory.exists_ref
    exact get_foldl_addRef (List.mem_append_left _ (hcomplete append hm hwritten))

theorem not_sealsAll_torn (hvalidates : Validates pathText validateJson appends)
    (hopen : files.sealed = none)
    (hjournal : files.journal = some (journalBytes pathText appends))
    (h : ¬ Readable pathText appends) :
    files.sealDay validateJson collectorId utcDate sealedAt = .error "ValidationError" := by
  have hrefs : files.readRefs validateJson = .error "ValidationError" := by
    unfold readRefs
    rw [hjournal]
    exact bind_error (mapM_torn hvalidates h)
  unfold sealDay
  rw [hopen]
  exact bind_error hrefs

/-- Without a journal the manifests are not looked at. -/
theorem sealsAll_unopened_iff (hended : utcDate < sealedAt / (86400 * 1000000))
    (hopen : files.sealed = none) (hjournal : files.journal = none)
    (hunopened : ∀ append ∈ appends, append.written pathText = []) :
    SealsAll pathText validateJson collectorId utcDate sealedAt files appends ↔
      files.ready = [] ∧ files.ackedManifests = [] := by
  have hrefs : files.readRefs validateJson = .ok [] := by
    rw [readRefs, hjournal]
  obtain ⟨manifest, after, hseal, hchunks⟩ := sealDay_ok collectorId hopen hended
    hrefs List.nodup_nil
  rw [← List.append_eq_nil_iff]
  constructor
  · intro h
    obtain ⟨manifest', after', hseal', hlists, -⟩ := h
    obtain ⟨rfl, -⟩ := Prod.ext_iff.mp (Except.ok.inj (hseal.symm.trans hseal'))
    rw [List.eq_nil_iff_forall_not_mem]
    intro stored hm
    obtain ⟨listed, hlisted, -⟩ := hlists stored hm
    rw [hchunks] at hlisted
    cases hlisted
  · intro hnone
    refine ⟨manifest, after, hseal, ?_, fun append hm hwritten => ?_⟩
    · rw [hnone]
      nofun
    · exact absurd (hwritten.symm.trans (hunopened append hm)) (refLine_ne_nil pathText _)

/-- The index of a day seals if and only if its journal is readable, and exists if there are
manifests. -/
theorem sealsAll_iff (hvalidates : Validates pathText validateJson appends) (collectorId : String)
    (hended : utcDate < sealedAt / (86400 * 1000000)) (ready acked : List ChunkManifest) :
    SealsAll pathText validateJson collectorId utcDate sealedAt
        (recordAll pathText { ready, ackedManifests := acked } appends) appends ↔
      Readable pathText appends ∧
        ((∃ append ∈ appends, append.persisted ≠ none) ∨ ready = [] ∧ acked = []) := by
  have hbegin : DayIndexFiles.sealed { ready, ackedManifests := acked } = none := rfl
  obtain ⟨hready, hacked, hopen⟩ :=
    recordAll_manifests pathText { ready, ackedManifests := acked } appends
  by_cases hopened : ∃ append ∈ appends, append.persisted ≠ none
  · have hjournal := recordAll_opened pathText { ready, ackedManifests := acked } appends hbegin rfl
      hopened
    constructor
    · intro h
      refine ⟨?_, .inl hopened⟩
      by_contra htorn
      obtain ⟨manifest, after, hseal, -⟩ := h
      cases (not_sealsAll_torn hvalidates hopen hjournal htorn).symm.trans hseal
    · intro h
      exact sealsAll_readable hvalidates hended hopen hjournal h.1
  · have hunopened : ∀ append ∈ appends, append.persisted = none := by
      intro append hm
      by_contra hpersisted
      exact hopened ⟨append, hm, hpersisted⟩
    have hjournal := (recordAll_journal pathText { ready, ackedManifests := acked } appends
      hbegin).1.mpr ⟨rfl, hunopened⟩
    have hempty : ∀ append ∈ appends, append.written pathText = [] := by
      intro append hm
      rw [IndexAppend.written, hunopened append hm]
    rw [sealsAll_unopened_iff hended hopen hjournal hempty, hready, hacked]
    constructor
    · intro h
      exact ⟨readable_of_empty hempty, .inr h⟩
    · intro h
      exact h.2.resolve_left hopened

end Seal

/-! ## A torn line -/

def firstRef : ChunkRef where
  chunkId := "index-0001"
  dataPath := ⟨[], "index-0001.parquet"⟩
  sha256 := "5feceb66ffc86f38d952786c6d696c79c2dbc239dd4e91b46729d73a27fb57e9"
  sizeBytes := 40961
  contentType := .parquet

def secondRef : ChunkRef where
  chunkId := "index-0002"
  dataPath := ⟨[], "index-0002.gap.json"⟩
  sha256 := "6b86b273ff34fce19d6b804eff5a3f5747ada4eaa22f1d49c01e52ddb7875b4b"
  sizeBytes := 40962
  contentType := .gapJson

/-- The path of a file below no directory. -/
def fileName (path : RelPath) : String := path.name

/-- The validation of the lines of the two chunks. -/
def validateTwo (line : Bytes) : Option ChunkRef :=
  [firstRef, secondRef].find? fun chunk =>
    line = refText fileName chunk ∨ line = refLine fileName chunk

theorem validates_two {appends : List IndexAppend}
    (h : ∀ append ∈ appends, append.chunk = firstRef ∨ append.chunk = secondRef) :
    Validates fileName validateTwo appends := by
  have hread : ∀ chunk, chunk = firstRef ∨ chunk = secondRef →
      validateTwo (refLine fileName chunk) = some chunk ∧
        validateTwo (refText fileName chunk) = some chunk := by
    intro chunk hchunk
    cases hchunk with
    | inl heq =>
      subst heq
      exact ⟨by decide +kernel, by decide +kernel⟩
    | inr heq =>
      subst heq
      exact ⟨by decide +kernel, by decide +kernel⟩
  refine ⟨fun line chunk hline => ?_, fun append hm => (hread _ (h append hm)).1,
    fun append hm => (hread _ (h append hm)).2⟩
  have hobject := (compact_refText fileName chunk).object
  unfold validateTwo at hline
  have hfound := List.find?_some hline
  cases of_decide_eq_true hfound with
  | inl heq =>
    rw [heq]
    exact hobject
  | inr heq =>
    rw [heq, refLine]
    apply hobject.space
    intro b hm
    rw [List.mem_singleton.mp hm]
    rfl

/-- The second line lacks its line break only. -/
def untornAppends : List IndexAppend :=
  [⟨firstRef, some 1000⟩, ⟨firstRef, some 0⟩,
    ⟨secondRef, some (refText fileName secondRef).length⟩, ⟨firstRef, none⟩]

theorem sealsAll_iff_untornAppends :
    SealsAll fileName validateTwo "collector" 19000 (19002 * 86400 * 1000000)
      (recordAll fileName {} untornAppends) untornAppends := by
  have hvalidates : Validates fileName validateTwo untornAppends := by
    apply validates_two
    decide +kernel
  have hopened : ∃ append ∈ untornAppends, append.persisted ≠ none :=
    ⟨_, List.mem_cons_self, Option.some_ne_none _⟩
  have hended : (19000 : Int) < 19002 * 86400 * 1000000 / (86400 * 1000000) := by norm_num
  apply (sealsAll_iff hvalidates "collector" hended [] []).mpr
  constructor
  · decide +kernel
  · exact .inl hopened

/-- A crash in the middle of a line, and a complete line behind it. -/
def tornAppends : List IndexAppend := [⟨firstRef, some 40⟩, ⟨secondRef, some 1000⟩]

theorem tornAppends_block_seal :
    (∃ append ∈ tornAppends, append.Complete fileName) ∧
      (recordAll fileName {} tornAppends).sealDay validateTwo "collector" 19000
        (19002 * 86400 * 1000000) = .error "ValidationError" := by
  have htorn : ¬ Readable fileName tornAppends := by decide +kernel
  have hvalidates : Validates fileName validateTwo tornAppends := by
    apply validates_two
    decide +kernel
  constructor
  · exact ⟨⟨secondRef, some 1000⟩, by decide +kernel, by decide +kernel⟩
  · have hopened : ∃ append ∈ tornAppends, append.persisted ≠ none :=
      ⟨_, List.mem_cons_self, Option.some_ne_none _⟩
    exact not_sealsAll_torn hvalidates (recordAll_manifests fileName {} tornAppends).2.2
      (recordAll_opened fileName {} tornAppends rfl rfl hopened) htorn

end DayIndexFiles

end MiryFormal
