import MiryFormal.Pipeline.CheckpointText
import MiryFormal.Pipeline.DaySplit

/-!
# A book read back from its checkpoint

The checkpoint of a book is JSON, so that prices and hashes are texts in it. The book that is
built from it does what the first one does, whatever rows follow.
-/

namespace MiryFormal

set_option autoImplicit false

open KeyedDict

/-! ## What is written -/

/-- Levels with the texts that `_checkpoint_levels` writes. -/
def levelTexts (levels : Levels) : Levels := levels.map fun level => (level.1.str, level.2)

structure DepthDiffCheckpoint where
  connectionId : String
  receiveSeq : Int
  receivedNs : Int
  firstUpdateId : Int
  finalUpdateId : Int
  previousFinalUpdateId : Int
  payloadHash : String
  bids : Levels
  asks : Levels
  deriving DecidableEq

def DepthDiff.toCheckpoint (diff : DepthDiff) : DepthDiffCheckpoint where
  connectionId := diff.connectionId
  receiveSeq := diff.receiveSeq
  receivedNs := diff.receivedNs
  firstUpdateId := diff.firstUpdateId
  finalUpdateId := diff.finalUpdateId
  previousFinalUpdateId := diff.previousFinalUpdateId
  payloadHash := String.ofList (hexText diff.payloadHash)
  bids := diff.bids
  asks := diff.asks

/-- `_diff_from_checkpoint` -/
def diffFromCheckpoint (checkpoint : DepthDiffCheckpoint) : Except String DepthDiff :=
  match fromHex checkpoint.payloadHash.toList with
  | none => .error "non-hexadecimal number found in fromhex() arg"
  | some payloadHash => .ok {
      connectionId := checkpoint.connectionId
      receiveSeq := checkpoint.receiveSeq
      receivedNs := checkpoint.receivedNs
      firstUpdateId := checkpoint.firstUpdateId
      finalUpdateId := checkpoint.finalUpdateId
      previousFinalUpdateId := checkpoint.previousFinalUpdateId
      payloadHash
      bids := checkpoint.bids
      asks := checkpoint.asks }

/-- An `AnchoredBookCheckpoint` with its texts. -/
structure AnchoredBookRecord where
  connectionId : String
  state : L2State
  previousUpdateId : Int
  anchorLastUpdateId : Int
  anchorReceivedNs : Int
  bids : Levels
  asks : Levels
  pending : List DepthDiffCheckpoint
  deriving DecidableEq

def AnchoredBookCheckpoint.record (checkpoint : AnchoredBookCheckpoint) : AnchoredBookRecord where
  connectionId := checkpoint.connectionId
  state := checkpoint.state
  previousUpdateId := checkpoint.previousUpdateId
  anchorLastUpdateId := checkpoint.anchorLastUpdateId
  anchorReceivedNs := checkpoint.anchorReceivedNs
  bids := levelTexts checkpoint.bids
  asks := levelTexts checkpoint.asks
  pending := checkpoint.pending.map DepthDiff.toCheckpoint

/-- An `L2Checkpoint` with the texts of its own levels. -/
def L2Checkpoint.record (checkpoint : L2Checkpoint) : L2Checkpoint :=
  { checkpoint with
    bids := levelTexts checkpoint.bids
    asks := levelTexts checkpoint.asks
    complete := fun hstate => by
      obtain ⟨hconnection, hprevious, hvalid, hbids, hasks⟩ := checkpoint.complete hstate
      exact ⟨hconnection, hprevious, hvalid, mt List.map_eq_nil_iff.mp hbids,
        mt List.map_eq_nil_iff.mp hasks⟩
    empty := fun hstate => by
      obtain ⟨hconnection, hprevious, hvalid, hbids, hasks⟩ := checkpoint.empty hstate
      exact ⟨hconnection, hprevious, hvalid, List.map_eq_nil_iff.mpr hbids,
        List.map_eq_nil_iff.mpr hasks⟩ }

namespace ConnectionBook

/-- `from_anchor_checkpoint` on what was written. -/
def fromAnchorRecord (record : AnchoredBookRecord) : Except String ConnectionBook := do
  let pending ← record.pending.mapM diffFromCheckpoint
  return {
    connectionId := record.connectionId
    state := record.state
    bids := bookSide record.bids
    asks := bookSide record.asks
    previousUpdateId := some record.previousUpdateId
    pending
    anchorLastUpdateId := some record.anchorLastUpdateId
    anchorReceivedNs := some record.anchorReceivedNs }

/-- The changes that rows make, one for each row, and the book after them. -/
def onRows (book : ConnectionBook) :
    List DepthRow → Except String (ConnectionBook × List (Option StateChange))
  | [] => .ok (book, [])
  | row :: rows => do
      let (book, change) ← book.onRow row
      let (book, changes) ← book.onRows rows
      return (book, change :: changes)

/-- The books that a connection can have: rows and transport gaps, and checkpoints that were
written and read in between, or that dropped the book. -/
inductive Reached (connectionId : String) : List DepthRow → ConnectionBook → Prop where
  | fresh : Reached connectionId [] { connectionId }
  | row {past : List DepthRow} {book next : ConnectionBook} {row : DepthRow}
      {change : Option StateChange} :
      Reached connectionId past book → book.onRow row = .ok (next, change) →
      Reached connectionId (past ++ [row]) next
  | gap {past : List DepthRow} {book : ConnectionBook} :
      Reached connectionId past book → Reached connectionId past book.invalidate
  | restored {past : List DepthRow} {book part : ConnectionBook} {day : L2Day}
      {books : List (String × ConnectionBook)} {checkpoint : L2Checkpoint} :
      Reached connectionId past book → book.state = .valid →
      day.buildCheckpoint (some book) books = .ok checkpoint →
      fromCheckpoint checkpoint.record = .ok part → Reached connectionId past part
  | anchored {past : List DepthRow} {book part : ConnectionBook}
      {checkpoint : AnchoredBookCheckpoint} :
      Reached connectionId past book → book.anchorCheckpoint = .ok checkpoint →
      fromAnchorRecord checkpoint.record = .ok part → Reached connectionId past part
  | dropped {past : List DepthRow} {book : ConnectionBook} :
      Reached connectionId past book → Reached connectionId past { connectionId }

end ConnectionBook

/-! ## Texts -/

theorem get_levelTexts (levels : Levels) (key : Decimal) :
    get price key (levelTexts levels) = get price key levels := by
  unfold levelTexts
  induction levels with
  | nil => rfl
  | cons level levels ih =>
    rw [List.map_cons, KeyedDict.get, KeyedDict.get, DecimalText.price_str, ih]

theorem map_price_levelTexts (levels : Levels) :
    (levelTexts levels).map (fun entry => price entry.1) =
      levels.map fun entry => price entry.1 := by
  unfold levelTexts
  induction levels with
  | nil => rfl
  | cons level levels ih => rw [List.map_cons, List.map_cons, ih, DecimalText.price_str, List.map_cons]

theorem cleanSide_levelTexts {side : Levels} (h : CleanSide side) : CleanSide (levelTexts side) := by
  constructor
  · unfold Distinct
    rw [map_price_levelTexts]
    exact h.1
  · intro level hm
    obtain ⟨written, hwritten, rfl⟩ := List.mem_map.mp hm
    exact h.2 written hwritten

/-- A side whose levels were sorted and written as texts. -/
theorem sameLevels_texts {side : Levels} (h : CleanSide side) :
    SameLevels side (bookSide (levelTexts (checkpointLevels side))) := by
  have hperm : (checkpointLevels side).Perm side := List.perm_insertionSort _ _
  have hclean : CleanSide (checkpointLevels side) :=
    ⟨(hperm.map _).nodup_iff.mpr h.1, fun entry hm => h.2 entry (hperm.mem_iff.mp hm)⟩
  intro key
  rw [ConnectionBook.bookSide_clean (cleanSide_levelTexts hclean), get_levelTexts]
  exact get_perm hperm.symm h.1 key

theorem diffFromCheckpoint_toCheckpoint (diff : DepthDiff) :
    diffFromCheckpoint diff.toCheckpoint = .ok diff := by
  unfold diffFromCheckpoint DepthDiff.toCheckpoint
  dsimp only
  rw [String.toList_ofList, fromHex_hexText]

namespace ConnectionBook
variable {connectionId : String} {past : List DepthRow} {whole part book : ConnectionBook}

/-! ## The two books that are read -/

/-- The book of a valid checkpoint. -/
def restoredBook (book : ConnectionBook) : ConnectionBook where
  connectionId := book.connectionId
  state := .valid
  bids := bookSide (levelTexts (checkpointLevels book.bids))
  asks := bookSide (levelTexts (checkpointLevels book.asks))
  previousUpdateId := book.previousUpdateId

theorem fromCheckpoint_record {day : L2Day} {books : List (String × ConnectionBook)}
    {checkpoint : L2Checkpoint} (hbuild : day.buildCheckpoint (some book) books = .ok checkpoint)
    (hfrom : fromCheckpoint checkpoint.record = .ok part) : part = book.restoredBook := by
  unfold L2Day.buildCheckpoint at hbuild
  obtain ⟨anchored, -, hbuild⟩ := exists_of_bind_ok hbuild
  dsimp only at hbuild
  split at hbuild
  · cases hbuild
    cases hfrom
    rfl
  · cases hbuild
    cases hfrom

theorem buildCheckpoint_fields {day : L2Day} {books : List (String × ConnectionBook)}
    {checkpoint : L2Checkpoint} (hbuild : day.buildCheckpoint (some book) books = .ok checkpoint)
    (hkeeps : L2Day.Keeps (some book) book) :
    fromCheckpoint checkpoint.record = .ok book.restoredBook := by
  obtain ⟨-, hstate, hprevious, hbids, hasks⟩ := hkeeps
  unfold L2Day.buildCheckpoint at hbuild
  obtain ⟨anchored, -, hbuild⟩ := exists_of_bind_ok hbuild
  dsimp only at hbuild
  rw [dif_pos ⟨hstate, hprevious, mt checkpointLevels_eq_nil.mp hbids,
    mt checkpointLevels_eq_nil.mp hasks⟩] at hbuild
  cases hbuild
  rfl

theorem fromAnchorRecord_record (checkpoint : AnchoredBookCheckpoint) :
    fromAnchorRecord checkpoint.record = .ok { fromAnchorCheckpoint checkpoint with
      bids := bookSide (levelTexts checkpoint.bids)
      asks := bookSide (levelTexts checkpoint.asks) } := by
  have hpending : (checkpoint.pending.map DepthDiff.toCheckpoint).mapM diffFromCheckpoint =
      .ok checkpoint.pending := by
    induction checkpoint.pending with
    | nil => rfl
    | cons diff diffs ih =>
      rw [List.map_cons, List.mapM_cons, diffFromCheckpoint_toCheckpoint, ih]
      rfl
  exact bind_eq hpending rfl

/-! ## An anchor that a valid book no longer needs -/

/-- A valid book keeps the anchor of a snapshot that it was given while it was valid. -/
def dropAnchor (book : ConnectionBook) : ConnectionBook :=
  { book with anchorLastUpdateId := none, anchorReceivedNs := none }

theorem Replayed.dropAnchor (h : Replayed past book) (hstate : book.state = .valid) :
    Replayed past book.dropAnchor where
  previous := fun _ => h.previous (.inl hstate)
  anchored := .rfl
  anchor_last := nofun
  settled := h.settled
  pending := h.pending
  seen := h.seen
  bids := h.bids
  asks := h.asks
  empty := fun hne => absurd hstate hne

/-- No row looks at that anchor. -/
theorem onRow_dropAnchor (hstate : book.state = .valid) {row : DepthRow} {next : ConnectionBook}
    {change : Option StateChange} (h : book.dropAnchor.onRow row = .ok (next, change)) :
    ∃ whole, book.onRow row = .ok (whole, change) ∧
      (whole = next ∨ whole.state = .valid ∧ whole.dropAnchor = next) := by
  cases row with
  | snapshot snapshot => exact ⟨next, h, .inl rfl⟩
  | diff diff =>
    have h : book.dropAnchor.onDiff diff = .ok (next, change) := h
    by_cases hseen : diff.identity ∈ book.seenDiffs
    · rw [onDiff_seen (show diff.identity ∈ book.dropAnchor.seenDiffs from hseen)] at h
      cases h
      exact ⟨book, onDiff_seen hseen, .inr ⟨hstate, rfl⟩⟩
    · have hseen' : diff.identity ∉ book.dropAnchor.seenDiffs := hseen
      have hstate' : book.dropAnchor.state = .valid := hstate
      cases hprevious : book.previousUpdateId with
      | none =>
        have hprevious' : book.dropAnchor.previousUpdateId = none := hprevious
        simp [onDiff, hseen', remember, hstate', hprevious'] at h
      | some id =>
        have hprevious' : book.dropAnchor.previousUpdateId = some id := hprevious
        by_cases hcont : sequenceContinues id diff.previousFinalUpdateId = true
        · rw [onDiff_continues hseen' hstate' hprevious' hcont] at h
          cases h
          exact ⟨_, onDiff_continues hseen hstate hprevious hcont, .inr ⟨hstate, rfl⟩⟩
        · rw [onDiff_breaks hseen' hstate' hprevious' hcont] at h
          cases h
          exact ⟨_, onDiff_breaks hseen hstate hprevious hcont, .inl rfl⟩

/-- The book that was read goes on like the one that was written, which may have such an anchor. -/
def Continues (past : List DepthRow) (whole part : ConnectionBook) : Prop :=
  (Replayed past whole ∧ Resumes past whole part) ∨
    (whole.state = .valid ∧ Replayed past whole.dropAnchor ∧ Resumes past whole.dropAnchor part)

theorem Continues.onRow (hc : Continues past whole part) {row : DepthRow}
    (hord : (past ++ [row]).Pairwise DepthRow.InOrder) :
    ∃ whole' part' change, whole.onRow row = .ok (whole', change) ∧
      part.onRow row = .ok (part', change) ∧ Continues (past ++ [row]) whole' part' := by
  cases hc with
  | inl hsame =>
    obtain ⟨whole', part', change, hwhole, hpart, hnext⟩ := stepSame_onRow hsame.1 hsame.2 hord
    exact ⟨whole', part', change, hwhole, hpart, .inl hnext⟩
  | inr hvalid =>
    obtain ⟨hstate, hreplayed, hresumes⟩ := hvalid
    obtain ⟨next, part', change, hnext, hpart, hreplayed', hresumes'⟩ :=
      stepSame_onRow hreplayed hresumes hord
    obtain ⟨whole', hwhole, hcases⟩ := onRow_dropAnchor hstate hnext
    refine ⟨whole', part', change, hwhole, hpart, ?_⟩
    cases hcases with
    | inl heq =>
      rw [heq]
      exact .inl ⟨hreplayed', hresumes'⟩
    | inr hstill =>
      obtain ⟨hstate', rfl⟩ := hstill
      exact .inr ⟨hstate', hreplayed', hresumes'⟩

/-- Both books make the same changes, and have the same levels and id after them. -/
def SameRows (whole part : ConnectionBook) (rows : List DepthRow) : Prop :=
  ∃ whole' part' changes, whole.onRows rows = .ok (whole', changes) ∧
    part.onRows rows = .ok (part', changes) ∧ SameLevels whole'.bids part'.bids ∧
    SameLevels whole'.asks part'.asks ∧ whole'.previousUpdateId = part'.previousUpdateId

theorem Continues.sameRows {rows : List DepthRow} (hc : Continues past whole part)
    (hord : (past ++ rows).Pairwise DepthRow.InOrder) : SameRows whole part rows := by
  induction rows generalizing past whole part with
  | nil =>
    refine ⟨whole, part, [], rfl, rfl, ?_⟩
    cases hc with
    | inl hsame => exact ⟨hsame.2.bids, hsame.2.asks, hsame.2.previous⟩
    | inr hvalid => exact ⟨hvalid.2.2.bids, hvalid.2.2.asks, hvalid.2.2.previous⟩
  | cons row rows ih =>
    rw [← List.singleton_append, ← List.append_assoc] at hord
    obtain ⟨whole', part', change, hwhole, hpart, hnext⟩ :=
      hc.onRow (List.pairwise_append.mp hord).1
    obtain ⟨last, last', changes, hrows, hrows', hsame⟩ := ih hnext hord
    refine ⟨last, last', change :: changes, bind_eq hwhole ?_, bind_eq hpart ?_, hsame⟩
    · exact bind_eq hrows rfl
    · exact bind_eq hrows' rfl

/-! ## Every book of a connection -/

theorem Replayed.invalidate (h : Replayed past book) : Replayed past book.invalidate where
  previous := by simp [ConnectionBook.invalidate]
  anchored := .rfl
  anchor_last := nofun
  settled := nofun
  pending := List.nil_sublist _
  seen := h.seen
  bids := cleanSide_nil
  asks := cleanSide_nil
  empty := fun _ _ => ⟨rfl, rfl, rfl⟩

theorem Replayed.restoredBook (h : Replayed past book) (hstate : book.state = .valid) :
    Replayed past book.restoredBook where
  previous := fun _ => h.previous (.inl hstate)
  anchored := .rfl
  anchor_last := nofun
  settled := fun _ => rfl
  pending := List.nil_sublist _
  seen := nofun
  bids := cleanSide_bookSide _
  asks := cleanSide_bookSide _
  empty := fun hne => absurd rfl hne

theorem Replayed.anchoredBook (h : Replayed past book) {checkpoint : AnchoredBookCheckpoint}
    (hcheckpoint : book.anchorCheckpoint = .ok checkpoint) :
    Replayed past { fromAnchorCheckpoint checkpoint with
      bids := bookSide (levelTexts checkpoint.bids)
      asks := bookSide (levelTexts checkpoint.asks) } := by
  obtain ⟨-, hanchor, hreceived, hpending⟩ := L2Day.anchorCheckpoint_ok hcheckpoint
  refine ⟨fun _ => nofun, ⟨nofun, nofun⟩, fun anchor hm => ?_, ?_, ?_, nofun,
    cleanSide_bookSide _, cleanSide_bookSide _, fun _ => nofun⟩
  · exact h.anchor_last anchor (hanchor.trans hm)
  · exact fun hvalid => absurd hvalid checkpoint.unbridged.1
  · exact (hpending.map _).trans h.pending

/-! What a book owes to its rows are the diffs and one snapshot, that of its anchor. -/

/-- The diffs of some rows. -/
def diffRows (rows : List DepthRow) : List DepthRow := (rows.filterMap DepthRow.diff?).map .diff

/-- A snapshot with the id of the anchor. -/
def anchorRows (book : ConnectionBook) : List DepthRow :=
  match book.anchorLastUpdateId with
  | none => []
  | some anchor => [.snapshot ⟨book.connectionId, 0, 0, anchor, [], []⟩]

theorem diff_mem_diffRows {rows : List DepthRow} {diff : DepthDiff} :
    .diff diff ∈ diffRows rows ↔ .diff diff ∈ rows := by
  unfold diffRows
  rw [List.mem_map]
  constructor
  · rintro ⟨other, hm, heq⟩
    cases heq
    obtain ⟨row, hrow, hdiff⟩ := List.mem_filterMap.mp hm
    cases row with
    | diff other =>
      cases hdiff
      exact hrow
    | snapshot snapshot => cases hdiff
  · intro hm
    exact ⟨diff, List.mem_filterMap.mpr ⟨_, hm, rfl⟩, rfl⟩

theorem snapshot_not_mem_diffRows {rows : List DepthRow} {snapshot : DepthSnapshot} :
    .snapshot snapshot ∉ diffRows rows := by
  intro hm
  obtain ⟨diff, -, heq⟩ := List.mem_map.mp hm
  cases heq

theorem diffRows_append (rows more : List DepthRow) :
    diffRows (rows ++ more) = diffRows rows ++ diffRows more := by
  unfold diffRows
  rw [List.filterMap_append, List.map_append]

theorem diffRows_idem (rows : List DepthRow) : diffRows (diffRows rows) = diffRows rows := by
  unfold diffRows
  rw [List.filterMap_map]
  congr 1
  exact List.filterMap_some

theorem diffRows_anchorRows (book : ConnectionBook) : diffRows book.anchorRows = [] := by
  unfold anchorRows
  split
  · rfl
  · rfl

theorem Replayed.onlyAnchor (h : Replayed past book) :
    Replayed (diffRows past ++ book.anchorRows) book where
  previous := h.previous
  anchored := h.anchored
  anchor_last := fun anchor hm => by
    have hrows : book.anchorRows = [.snapshot ⟨book.connectionId, 0, 0, anchor, [], []⟩] := by
      unfold anchorRows
      rw [Option.mem_def.mp hm]
    rw [hrows]
    refine ⟨⟨_, List.mem_append_right _ List.mem_cons_self, rfl⟩, fun snapshot hsnapshot => ?_⟩
    cases List.mem_append.mp hsnapshot with
    | inl hsnapshot => exact absurd hsnapshot snapshot_not_mem_diffRows
    | inr hsnapshot =>
      cases List.mem_singleton.mp hsnapshot
      exact le_rfl
  settled := h.settled
  pending := by
    have hdiffs := (h.pending.filterMap DepthRow.diff?).map DepthRow.diff
    have hsame : diffRows (book.pending.map DepthRow.diff) = book.pending.map DepthRow.diff := by
      unfold diffRows
      rw [List.filterMap_map]
      congr 1
      exact List.filterMap_some
    have hsublist : (diffRows (book.pending.map DepthRow.diff)).Sublist (diffRows past) := hdiffs
    rw [hsame] at hsublist
    exact hsublist.trans (List.sublist_append_left _ _)
  seen := fun identity hm => by
    obtain ⟨diff, hdiff, hid⟩ := h.seen identity hm
    exact ⟨diff, List.mem_append_left _ (diff_mem_diffRows.mpr hdiff), hid⟩
  bids := h.bids
  asks := h.asks
  empty := h.empty

/-- Diffs with increasing `receive_seq` and update ids. -/
def DiffsInOrder (rows : List DepthRow) : Prop :=
  (rows.filterMap DepthRow.diff?).Pairwise fun a b =>
    a.receiveSeq < b.receiveSeq ∧ a.finalUpdateId < b.finalUpdateId

/-- The snapshot of a row. -/
def ofSnapshot : DepthRow → Option DepthSnapshot
  | .diff _ => none
  | .snapshot snapshot => some snapshot

/-- Snapshots whose ids do not go back. -/
def SnapshotsInOrder (rows : List DepthRow) : Prop :=
  (rows.filterMap ofSnapshot).Pairwise fun a b => a.lastUpdateId ≤ b.lastUpdateId

theorem pairwise_inOrder {rows : List DepthRow} (hdiffs : DiffsInOrder rows)
    (hsnapshots : SnapshotsInOrder rows) : rows.Pairwise DepthRow.InOrder := by
  unfold DiffsInOrder at hdiffs
  unfold SnapshotsInOrder at hsnapshots
  rw [List.pairwise_filterMap] at hdiffs hsnapshots
  apply (hdiffs.and hsnapshots).imp
  intro a b hboth
  cases a with
  | diff a =>
    cases b with
    | diff b => exact hboth.1 a rfl b rfl
    | snapshot b => trivial
  | snapshot a =>
    cases b with
    | diff b => trivial
    | snapshot b => exact hboth.2 a rfl b rfl

/-- The rows that a book's state goes back to. -/
def ownRows (past : List DepthRow) (book : ConnectionBook) : List DepthRow :=
  diffRows past ++ book.anchorRows

theorem diffRows_ownRows (past : List DepthRow) (book : ConnectionBook) :
    diffRows (book.ownRows past) = diffRows past := by
  unfold ownRows
  rw [diffRows_append, diffRows_idem, diffRows_anchorRows, List.append_nil]

theorem filterMap_diffRows (rows : List DepthRow) :
    (diffRows rows).filterMap DepthRow.diff? = rows.filterMap DepthRow.diff? ∧
      (diffRows rows).filterMap ofSnapshot = [] := by
  unfold diffRows
  rw [List.filterMap_map, List.filterMap_map]
  constructor
  · exact List.filterMap_some
  · exact List.filterMap_none _

theorem filterMap_anchorRows (book : ConnectionBook) :
    book.anchorRows.filterMap DepthRow.diff? = [] ∧
      ∀ snapshot ∈ book.anchorRows.filterMap ofSnapshot,
        book.anchorLastUpdateId = some snapshot.lastUpdateId := by
  unfold anchorRows
  split
  · exact ⟨rfl, nofun⟩
  · rename_i hanchor
    refine ⟨rfl, fun snapshot hm => ?_⟩
    rw [List.mem_singleton.mp hm]
    exact hanchor

theorem anchorRows_pairwise (book : ConnectionBook) :
    SnapshotsInOrder book.anchorRows := by
  unfold SnapshotsInOrder anchorRows
  split
  · exact .nil
  · exact List.pairwise_singleton _ _

/-- Own rows before later ones. -/
theorem ownRows_inOrder {later : List DepthRow} (hdiffs : DiffsInOrder (past ++ later))
    (hsnapshots : SnapshotsInOrder later)
    (hanchor : ∀ anchor ∈ book.anchorLastUpdateId, ∀ snapshot ∈ later.filterMap ofSnapshot,
      anchor ≤ snapshot.lastUpdateId) :
    (book.ownRows past ++ later).Pairwise DepthRow.InOrder := by
  apply pairwise_inOrder
  · unfold DiffsInOrder ownRows at *
    rw [List.filterMap_append, List.filterMap_append, (filterMap_diffRows past).1,
      (filterMap_anchorRows book).1, List.append_nil, ← List.filterMap_append]
    exact hdiffs
  · unfold SnapshotsInOrder ownRows
    rw [List.filterMap_append, List.filterMap_append, (filterMap_diffRows past).2, List.nil_append]
    apply List.pairwise_append.mpr
    refine ⟨book.anchorRows_pairwise, hsnapshots, fun a ha b hb => ?_⟩
    exact hanchor a.lastUpdateId ((filterMap_anchorRows book).2 a ha) b hb

/-- The book before a snapshot, without what the snapshot replaces. -/
def cleared (book : ConnectionBook) : ConnectionBook :=
  if book.state = .valid then book.dropAnchor
  else { book.dropAnchor with bids := [], asks := [], previousUpdateId := none }

theorem cleared_onSnapshot (book : ConnectionBook) (snapshot : DepthSnapshot) :
    book.cleared.onSnapshot snapshot = book.onSnapshot snapshot := by
  unfold cleared
  split
  · rfl
  · rfl

theorem cleared_anchorRows (book : ConnectionBook) : book.cleared.anchorRows = [] := by
  unfold cleared
  split
  · rfl
  · rfl

theorem Replayed.cleared (h : Replayed past book) : Replayed (diffRows past) book.cleared := by
  have hcleared : Replayed past book.cleared := by
    unfold ConnectionBook.cleared
    split
    · rename_i hstate
      exact h.dropAnchor hstate
    · rename_i hstate
      refine ⟨fun hor => ?_, .rfl, nofun, fun hvalid => absurd hvalid hstate, h.pending, h.seen,
        cleanSide_nil, cleanSide_nil, fun _ _ => ⟨rfl, rfl, rfl⟩⟩
      cases hor with
      | inl hvalid => exact absurd hvalid hstate
      | inr hanchor => exact absurd rfl hanchor
  have honly := hcleared.onlyAnchor
  rw [cleared_anchorRows, List.append_nil] at honly
  exact honly

theorem Reached.replayed (h : Reached connectionId past book) (hdiffs : DiffsInOrder past) :
    Replayed (book.ownRows past) book := by
  have hown : ∀ {past : List DepthRow} {before after : ConnectionBook},
      Replayed (before.ownRows past) after → Replayed (after.ownRows past) after := by
    intro past before after hreplayed
    have honly := hreplayed.onlyAnchor
    rw [diffRows_ownRows] at honly
    exact honly
  induction h with
  | fresh => exact replayed_fresh connectionId
  | @row past book next row change _ hrow ih =>
    have hpast : DiffsInOrder past := by
      unfold DiffsInOrder at hdiffs ⊢
      rw [List.filterMap_append] at hdiffs
      exact (List.pairwise_append.mp hdiffs).1
    cases row with
    | diff diff =>
      have hord : (book.ownRows past ++ [DepthRow.diff diff]).Pairwise DepthRow.InOrder :=
        ownRows_inOrder hdiffs .nil fun _ _ => List.forall_mem_nil _
      obtain ⟨after, _, _, hafter, -, hreplayed, -⟩ :=
        stepSame_onRow (ih hpast) (resumes_refl _ _) hord
      rw [hrow] at hafter
      cases hafter
      have honly := hreplayed.onlyAnchor
      rw [diffRows_append, diffRows_ownRows, ← diffRows_append] at honly
      exact honly
    | snapshot snapshot =>
      have hord : (diffRows past ++ [DepthRow.snapshot snapshot]).Pairwise DepthRow.InOrder := by
        have hclear := @ownRows_inOrder past book.cleared [.snapshot snapshot] hdiffs
          (List.pairwise_singleton _ _)
        unfold ownRows at hclear
        rw [cleared_anchorRows, List.append_nil] at hclear
        apply hclear
        intro anchor hanchor
        have hnone : book.cleared.anchorLastUpdateId = none := by
          unfold cleared
          split
          · rfl
          · rfl
        rw [hnone] at hanchor
        cases hanchor
      have hcleared := (ih hpast).cleared
      rw [diffRows_ownRows] at hcleared
      obtain ⟨after, _, _, hafter, -, hreplayed, -⟩ :=
        stepSame_onRow hcleared (resumes_refl _ _) hord
      have hrow' : book.onSnapshot snapshot = .ok (next, change) := hrow
      rw [show book.cleared.onRow (.snapshot snapshot) = book.onSnapshot snapshot from
        cleared_onSnapshot book snapshot, hrow'] at hafter
      cases hafter
      have honly := hreplayed.onlyAnchor
      rw [diffRows_append, diffRows_idem, ← diffRows_append] at honly
      exact honly
  | gap _ ih => exact hown (ih hdiffs).invalidate
  | restored _ hstate hbuild hfrom ih =>
    rw [fromCheckpoint_record hbuild hfrom]
    exact hown ((ih hdiffs).restoredBook hstate)
  | anchored _ hcheckpoint hfrom ih =>
    rw [fromAnchorRecord_record] at hfrom
    cases hfrom
    exact hown ((ih hdiffs).anchoredBook hcheckpoint)
  | @dropped past book _ _ =>
    exact ⟨by simp, by simp, by simp, by simp, List.nil_sublist _, by simp, cleanSide_nil,
      cleanSide_nil, by simp⟩

theorem anchorCheckpoint_levels {checkpoint : AnchoredBookCheckpoint}
    (h : book.anchorCheckpoint = .ok checkpoint) :
    checkpoint.bids = checkpointLevels book.bids ∧ checkpoint.asks = checkpointLevels book.asks := by
  unfold anchorCheckpoint at h
  split at h
  · split at h
    · cases h
      exact ⟨rfl, rfl⟩
    · cases h
  · cases h

/-- Rows that may come after those of a book. -/
structure Follow (past : List DepthRow) (book : ConnectionBook) (later : List DepthRow) : Prop where
  diffs : DiffsInOrder (past ++ later)
  snapshots : SnapshotsInOrder later
  anchor : book.state ≠ .valid → ∀ anchor ∈ book.anchorLastUpdateId,
    ∀ snapshot ∈ later.filterMap ofSnapshot, anchor ≤ snapshot.lastUpdateId

theorem continues_restored (h : Replayed past book) (hstate : book.state = .valid) :
    Continues (diffRows past) book book.restoredBook := by
  have hdrop := (h.dropAnchor hstate).onlyAnchor
  have hnone : book.dropAnchor.anchorRows = [] := rfl
  rw [hnone, List.append_nil] at hdrop
  refine .inr ⟨hstate, hdrop, rfl, ⟨fun _ => rfl, fun _ => hstate⟩, rfl, rfl, rfl,
    sameLevels_texts h.bids, sameLevels_texts h.asks, ⟨[], ?_, nofun⟩, nofun⟩
  exact h.settled hstate

/-- A book with levels that is bridged, or waits on its anchor, is restored from its checkpoint:
whatever follows, both books change together and have the same levels and update id. -/
theorem checkpoints_restore (h : Reached connectionId past book) (hdiffs : DiffsInOrder past)
    (hbids : book.bids ≠ []) (hasks : book.asks ≠ []) :
    (book.state = .valid → ∀ day : L2Day,
      (∃ checkpoint, day.buildCheckpoint (some book) [] = .ok checkpoint) ∧
      ∀ books checkpoint, day.buildCheckpoint (some book) books = .ok checkpoint →
        ∃ part, fromCheckpoint checkpoint.record = .ok part ∧
          ∀ later, book.Follow past later → SameRows book part later) ∧
    (book.state ≠ .valid → book.anchorLastUpdateId ≠ none →
      ∃ checkpoint part, book.anchorCheckpoint = .ok checkpoint ∧
        fromAnchorRecord checkpoint.record = .ok part ∧
        ∀ later, book.Follow past later → SameRows book part later) := by
  have hreplayed := h.replayed hdiffs
  constructor
  · intro hstate day
    have hkeeps : L2Day.Keeps (some book) book :=
      ⟨rfl, hstate, hreplayed.previous (.inl hstate), hbids, hasks⟩
    constructor
    · have hnone : (([] : List (String × ConnectionBook)).filter fun entry =>
          entry.2.WaitsAnchored).mapM (fun entry => entry.2.anchorCheckpoint) = .ok [] := rfl
      obtain ⟨checkpoint, hbuild, -⟩ := L2Day.build_kept day hnone hkeeps
      exact ⟨checkpoint, hbuild⟩
    · intro books checkpoint hbuild
      refine ⟨_, buildCheckpoint_fields hbuild hkeeps, fun later hlater => ?_⟩
      have hcontinues := continues_restored hreplayed hstate
      rw [diffRows_ownRows] at hcontinues
      have hord := @ownRows_inOrder past book.dropAnchor later hlater.diffs hlater.snapshots nofun
      have hnone : book.dropAnchor.anchorRows = [] := rfl
      unfold ownRows at hord
      rw [hnone, List.append_nil] at hord
      exact hcontinues.sameRows hord
  · intro hstate hanchor
    have hord := @ownRows_inOrder past book [] (by rwa [List.append_nil]) .nil
      fun _ _ => List.forall_mem_nil _
    rw [List.append_nil] at hord
    obtain ⟨checkpoint, hcheckpoint, hresumes⟩ := resumes_anchored hreplayed hord
      ⟨hanchor, mt hreplayed.anchored.mpr hanchor, hbids, hasks⟩ hstate
    obtain ⟨hlevels, hlevels'⟩ := anchorCheckpoint_levels hcheckpoint
    refine ⟨checkpoint, _, hcheckpoint, fromAnchorRecord_record checkpoint, fun later hlater => ?_⟩
    have hlaterOrd := ownRows_inOrder hlater.diffs hlater.snapshots (hlater.anchor hstate)
    refine Continues.sameRows (.inl ⟨hreplayed, ?_⟩) hlaterOrd
    exact { hresumes with
      bids := by
        rw [hlevels]
        exact sameLevels_texts hreplayed.bids
      asks := by
        rw [hlevels']
        exact sameLevels_texts hreplayed.asks }

/-- A snapshot that no diff has reached yet. -/
def waitingSnapshot : DepthSnapshot where
  connectionId := "stream"
  receiveSeq := 1
  receivedNs := 1
  lastUpdateId := 10
  bids := [(⟨"100", isNumber_100⟩, "1")]
  asks := [(⟨"101", isNumber_101⟩, "1")]

/-- A diff that reaches the snapshot, and the one after it. -/
def reachingDiff (firstUpdateId finalUpdateId previousFinalUpdateId receiveSeq : Int) : DepthDiff where
  connectionId := "stream"
  receiveSeq := receiveSeq
  receivedNs := receiveSeq
  firstUpdateId := firstUpdateId
  finalUpdateId := finalUpdateId
  previousFinalUpdateId := previousFinalUpdateId
  payloadHash := []
  bids := [(⟨"100", isNumber_100⟩, "2")]
  asks := []

def bridgingDiff : DepthDiff := reachingDiff 9 12 8 2

def nextDiff : DepthDiff := reachingDiff 13 14 12 3

/-- A book that waits on its anchor is restored, and bridged by the diff that bridges the
original; that one is restored from the day. -/
theorem checkpoints_restore_waiting : ∃ day : L2Day, ∃ waiting bridged checkpoint part books part',
    Reached "stream" [.snapshot waitingSnapshot] waiting ∧
      waiting.anchorCheckpoint = .ok checkpoint ∧ fromAnchorRecord checkpoint.record = .ok part ∧
      SameRows waiting part [.diff bridgingDiff, .diff nextDiff] ∧
    Reached "stream" [.snapshot waitingSnapshot, .diff bridgingDiff] bridged ∧
      day.buildCheckpoint (some bridged) [] = .ok books ∧
      fromCheckpoint books.record = .ok part' ∧ SameRows bridged part' [.diff nextDiff] := by
  let fresh : ConnectionBook := { connectionId := "stream" }
  have hrow : fresh.onRow (.snapshot waitingSnapshot) =
      .ok ({ fresh.anchorAt waitingSnapshot with pending := [] }, none) :=
    tryBridge_waiting (fresh.anchorAt waitingSnapshot) rfl rfl (List.forall_mem_nil _)
  have hwaiting := Reached.fresh.row hrow
  have hbridged : ∃ bridged change, ConnectionBook.onRow
      { fresh.anchorAt waitingSnapshot with pending := [] } (.diff bridgingDiff) =
        .ok (bridged, change) ∧ bridged.state = .valid ∧ bridged.bids ≠ [] ∧ bridged.asks ≠ [] :=
    ⟨_, _, rfl, by decide, by decide, by decide⟩
  obtain ⟨bridged, change, hbridge, hstate, hbids, hasks⟩ := hbridged
  have hreached := hwaiting.row hbridge
  let day : L2Day := ⟨"tokyo01", 0, "BTCUSDT", none, none, none, [], []⟩
  obtain ⟨checkpoint, part, hcheckpoint, hpart, hsame⟩ :=
    (checkpoints_restore hwaiting .nil (List.cons_ne_nil _ _) (List.cons_ne_nil _ _)).2
      (by decide) (by decide)
  have hdiffs : DiffsInOrder [.snapshot waitingSnapshot, .diff bridgingDiff, .diff nextDiff] := by
    unfold DiffsInOrder
    decide
  obtain ⟨⟨books, hbooks⟩, hrestores⟩ := (checkpoints_restore hreached (List.pairwise_singleton _ _)
    hbids hasks).1 hstate day
  obtain ⟨part', hpart', hsame'⟩ := hrestores [] books hbooks
  refine ⟨day, _, bridged, checkpoint, part, books, part', hwaiting, hcheckpoint, hpart,
    hsame _ ⟨hdiffs, .nil, nofun⟩, hreached, hbooks, hpart', hsame' _ ⟨hdiffs, .nil, nofun⟩⟩

end ConnectionBook

end MiryFormal
