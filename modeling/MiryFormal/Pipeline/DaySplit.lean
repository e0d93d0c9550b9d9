import MiryFormal.Pipeline.L2Validity
import MiryFormal.Pipeline.BookSoundness
import MiryFormal.Shared.Fallible

/-!
# A connection across midnight

The rows of one connection are replayed as a whole, or up to midnight and, from the
checkpoint of that day, on from there. `Resumes` relates the two books after midnight: the
resumed one may lack buffered diffs that no snapshot can reach any more, and nothing else
that the rules look at.
-/

namespace MiryFormal

set_option autoImplicit false

open KeyedDict

/-- The order of one connection's rows: diffs with increasing `receive_seq` and update ids, and
snapshot ids that do not go back. -/
def DepthRow.InOrder : DepthRow → DepthRow → Prop
  | .diff a, .diff b => a.receiveSeq < b.receiveSeq ∧ a.finalUpdateId < b.finalUpdateId
  | .snapshot a, .snapshot b => a.lastUpdateId ≤ b.lastUpdateId
  | _, _ => True

/-- Equal dictionaries of levels. -/
def SameLevels (a b : Levels) : Prop := ∀ key, get price key a = get price key b

/-- A side as the book keeps it: one entry for a price, and no zero quantity. -/
def CleanSide (side : Levels) : Prop :=
  Distinct price side ∧ ∀ level ∈ side, isZero level.2 = false

theorem SameLevels.applyLevels {a b : Levels} (h : SameLevels a b) (levels : Levels) :
    SameLevels (applyLevels a levels) (MiryFormal.applyLevels b levels) := by
  intro key
  rw [applyLevels_eq_writes, applyLevels_eq_writes, get_foldl_write, get_foldl_write, h key]

theorem CleanSide.set {side : Levels} (h : CleanSide side) {level : DecimalText × String}
    (hlevel : isZero level.2 = false) : CleanSide (KeyedDict.set price level.1 level.2 side) := by
  refine ⟨distinct_set h.1 _ _, fun entry hm => ?_⟩
  rcases mem_set hm with hm | ⟨-, hvalue⟩
  · exact h.2 entry hm
  · rw [hvalue, hlevel]

theorem CleanSide.applyLevels {side : Levels} (h : CleanSide side) (levels : Levels) :
    CleanSide (applyLevels side levels) := by
  induction levels generalizing side with
  | nil => exact h
  | cons level levels ih =>
    refine ih ?_
    dsimp only
    by_cases hz : isZero level.2 = true
    · rw [if_pos hz]
      exact ⟨distinct_pop h.1 _, fun entry hm => h.2 entry ((pop_sublist _ _).subset hm)⟩
    · rw [if_neg hz]
      exact h.set (by simpa using hz)

theorem cleanSide_nil : CleanSide [] := ⟨List.nodup_nil, by simp⟩

theorem cleanSide_bookSide (levels : Levels) : CleanSide (bookSide levels) := by
  rw [bookSide_eq_applyLevels]
  exact cleanSide_nil.applyLevels _

namespace ConnectionBook

/-- What a book shows at the row that makes it valid. -/
structure Bridge where
  change : StateChange
  bids : Levels
  asks : Levels

def Bridge.Same (a b : Bridge) : Prop :=
  a.change = b.change ∧ SameLevels a.bids b.bids ∧ SameLevels a.asks b.asks

def bridgeOf (book : ConnectionBook) : Option StateChange → Option Bridge
  | some change => if change.state = .valid then some ⟨change, book.bids, book.asks⟩ else none
  | none => none

/-- The book after the rows. -/
def replay (book : ConnectionBook) : List DepthRow → Except String ConnectionBook
  | [] => .ok book
  | row :: rows => do
      let (book, _) ← book.onRow row
      book.replay rows

/-- For each row, whether the book becomes valid there, and with which levels. -/
def bridges (book : ConnectionBook) : List DepthRow → Except String (List (Option Bridge))
  | [] => .ok []
  | row :: rows => do
      let (book, change) ← book.onRow row
      let later ← book.bridges rows
      return book.bridgeOf change :: later

/-- The rows make both books valid at the same places. -/
def Agree (whole part : ConnectionBook) (rows : List DepthRow) : Prop :=
  ∃ a b, whole.bridges rows = .ok a ∧ part.bridges rows = .ok b ∧
    List.Forall₂ (Option.Rel Bridge.Same) a b

/-! ## The book of a replay -/

/-- What holds of a book that has replayed the rows `past`. -/
structure Replayed (past : List DepthRow) (book : ConnectionBook) : Prop where
  previous : book.state = .valid ∨ book.anchorLastUpdateId ≠ none → book.previousUpdateId ≠ none
  anchored : book.anchorLastUpdateId = none ↔ book.anchorReceivedNs = none
  anchor_last : ∀ anchor ∈ book.anchorLastUpdateId,
    (∃ snapshot, .snapshot snapshot ∈ past ∧ snapshot.lastUpdateId = anchor) ∧
      ∀ snapshot, .snapshot snapshot ∈ past → snapshot.lastUpdateId ≤ anchor
  settled : book.state = .valid → book.pending = []
  pending : (book.pending.map DepthRow.diff).Sublist past
  seen : ∀ identity ∈ book.seenDiffs, ∃ diff, .diff diff ∈ past ∧ diff.identity = identity
  bids : CleanSide book.bids
  asks : CleanSide book.asks
  empty : book.state ≠ .valid → book.anchorLastUpdateId = none →
    book.previousUpdateId = none ∧ book.bids = [] ∧ book.asks = []

/-- The book `part` goes on from midnight like `whole`, which has replayed all of `past`. -/
structure Resumes (past : List DepthRow) (whole part : ConnectionBook) : Prop where
  connectionId : whole.connectionId = part.connectionId
  valid_iff : whole.state = .valid ↔ part.state = .valid
  previous : whole.previousUpdateId = part.previousUpdateId
  anchor : whole.anchorLastUpdateId = part.anchorLastUpdateId
  received : whole.anchorReceivedNs = part.anchorReceivedNs
  bids : SameLevels whole.bids part.bids
  asks : SameLevels whole.asks part.asks
  pending : ∃ old, whole.pending = old ++ part.pending ∧
    ∀ diff ∈ old, ∃ snapshot, .snapshot snapshot ∈ past ∧ diff.finalUpdateId < snapshot.lastUpdateId
  seen : ∀ identity ∈ part.seenDiffs, identity ∈ whole.seenDiffs

variable {past : List DepthRow} {whole part : ConnectionBook}

theorem replayed_fresh (connectionId : String) : Replayed [] { connectionId } where
  previous := by simp
  anchored := by simp
  anchor_last := by simp
  settled := by simp
  pending := by simp
  seen := by simp
  bids := cleanSide_nil
  asks := cleanSide_nil
  empty := by simp

/-- Both operations return, the books still match, and they become valid together. -/
def StepAlike (past : List DepthRow)
    (result result' : Except String (ConnectionBook × Option StateChange)) : Prop :=
  ∃ whole change part change', result = .ok (whole, change) ∧ result' = .ok (part, change') ∧
    Replayed past whole ∧ Resumes past whole part ∧
    Option.Rel Bridge.Same (whole.bridgeOf change) (part.bridgeOf change')

/-- Both operations return the same change, and the books still match. -/
def StepSame (past : List DepthRow)
    (result result' : Except String (ConnectionBook × Option StateChange)) : Prop :=
  ∃ whole part change, result = .ok (whole, change) ∧ result' = .ok (part, change) ∧
    Replayed past whole ∧ Resumes past whole part

theorem StepSame.alike {result result' : Except String (ConnectionBook × Option StateChange)}
    (h : StepSame past result result') : StepAlike past result result' := by
  obtain ⟨whole, part, change, hwhole, hpart, hreplayed, hresumes⟩ := h
  refine ⟨whole, change, part, change, hwhole, hpart, hreplayed, hresumes, ?_⟩
  cases change with
  | none => exact .none
  | some change =>
    dsimp only [bridgeOf]
    by_cases hvalid : change.state = .valid
    · rw [if_pos hvalid, if_pos hvalid]
      exact .some ⟨rfl, hresumes.bids, hresumes.asks⟩
    · rw [if_neg hvalid, if_neg hvalid]
      exact .none

theorem stepSame_none (h : Replayed past whole) (hr : Resumes past whole part) :
    StepSame past (.ok (whole, none)) (.ok (part, none)) :=
  ⟨whole, part, none, rfl, rfl, h, hr⟩

theorem pending_ordered (h : (whole.pending.map DepthRow.diff).Sublist past)
    (hord : past.Pairwise DepthRow.InOrder) :
    whole.pending.Pairwise fun a b => a.receiveSeq < b.receiveSeq ∧
      a.finalUpdateId < b.finalUpdateId :=
  List.pairwise_map.mp (hord.sublist h)

theorem mem_past_of_pending (h : Replayed past whole) {diff : DepthDiff}
    (hm : diff ∈ whole.pending) : .diff diff ∈ past :=
  h.pending.subset (List.mem_map_of_mem hm)

theorem sameLevels_foldl {a b : Levels} (h : SameLevels a b) (diffs : List DepthDiff)
    (levels : DepthDiff → Levels) :
    SameLevels (diffs.foldl (fun side diff => applyLevels side (levels diff)) a)
      (diffs.foldl (fun side diff => applyLevels side (levels diff)) b) := by
  rw [foldl_applyLevels, foldl_applyLevels]
  exact h.applyLevels _

theorem cleanSide_foldl {side : Levels} (h : CleanSide side) (diffs : List DepthDiff)
    (levels : DepthDiff → Levels) :
    CleanSide (diffs.foldl (fun side diff => applyLevels side (levels diff)) side) := by
  rw [foldl_applyLevels]
  exact h.applyLevels _

theorem stepSame_restartAt (h : Replayed past whole) (hr : Resumes past whole part)
    {diff : DepthDiff} (hm : .diff diff ∈ past) (reason : String) :
    StepSame past (.ok (whole.restartAt diff, some (whole.gappedAt diff reason)))
      (.ok (part.restartAt diff, some (part.gappedAt diff reason))) := by
  have hgapped : part.gappedAt diff reason = whole.gappedAt diff reason := by
    unfold gappedAt
    rw [hr.connectionId]
  rw [hgapped]
  refine ⟨_, _, _, rfl, rfl, ?_, ?_⟩
  · refine ⟨?_, .rfl, ?_, ?_, ?_, h.seen, cleanSide_nil, cleanSide_nil, fun _ _ => ⟨rfl, rfl, rfl⟩⟩
    · simp [restartAt, invalidate]
    · simp [restartAt, invalidate]
    · simp [restartAt, invalidate]
    · simpa [restartAt, invalidate] using hm
  · exact ⟨hr.connectionId, .rfl, rfl, rfl, rfl, fun _ => rfl, fun _ => rfl, ⟨[], rfl, by simp⟩,
      hr.seen⟩

theorem stepSame_tryBridge (h : Replayed past whole) (hr : Resumes past whole part)
    (hord : past.Pairwise DepthRow.InOrder) :
    StepSame past whole.tryBridge part.tryBridge := by
  cases hanchor : whole.anchorLastUpdateId with
  | none =>
    rw [tryBridge_none whole hanchor, tryBridge_none part (hr.anchor ▸ hanchor)]
    exact stepSame_none h hr
  | some anchor =>
    obtain ⟨receivedNs, hreceived⟩ : ∃ receivedNs, whole.anchorReceivedNs = some receivedNs := by
      refine Option.ne_none_iff_exists'.mp fun hnone => ?_
      rw [h.anchored.mpr hnone] at hanchor
      cases hanchor
    have hanchor' : part.anchorLastUpdateId = some anchor := hr.anchor ▸ hanchor
    have hreceived' : part.anchorReceivedNs = some receivedNs := hr.received ▸ hreceived
    obtain ⟨old, hpending, hold⟩ := hr.pending
    have hwhole := pending_ordered h.pending hord
    have hpart : part.pending.Pairwise fun a b => a.receiveSeq < b.receiveSeq ∧
        a.finalUpdateId < b.finalUpdateId := by
      rw [hpending] at hwhole
      exact (List.pairwise_append.mp hwhole).2.1
    have horder := orderByReceiveSeq_of_pairwise (hwhole.imp fun h => h.1.le)
    have horder' := orderByReceiveSeq_of_pairwise (hpart.imp fun h => h.1.le)
    -- What only the whole book buffers lies before the anchor.
    have hold' : ∀ diff ∈ old, diff.finalUpdateId < anchor := by
      intro diff hm
      obtain ⟨snapshot, hsnapshot, hlt⟩ := hold diff hm
      exact hlt.trans_le ((h.anchor_last anchor hanchor).2 snapshot hsnapshot)
    rcases reaching_cases DepthDiff.finalUpdateId anchor part.pending with
      hall | ⟨before, first, rest, hsplit, hbefore, hfirst⟩
    · have hall' : ∀ diff ∈ whole.pending, diff.finalUpdateId < anchor := by
        rw [hpending]
        exact fun diff hm => (List.mem_append.mp hm).elim (hold' diff) (hall diff)
      rw [tryBridge_waiting whole hanchor hreceived hall',
        tryBridge_waiting part hanchor' hreceived' hall]
      exact stepSame_none { h with settled := fun _ => rfl, pending := List.nil_sublist _ }
        { hr with pending := ⟨[], rfl, by simp⟩ }
    · have hsplit' : whole.pending = (old ++ before) ++ first :: rest := by
        rw [hpending, hsplit, List.append_assoc]
      have hbefore' : ∀ diff ∈ old ++ before, diff.finalUpdateId < anchor :=
        fun diff hm => (List.mem_append.mp hm).elim (hold' diff) (hbefore diff)
      rw [hsplit'] at horder
      rw [hsplit] at horder'
      have hsublist : ((first :: rest).map DepthRow.diff).Sublist past := by
        refine List.Sublist.trans ?_ h.pending
        rw [hsplit', List.map_append]
        exact List.sublist_append_right _ _
      have hne : whole.state ≠ .valid := fun hvalid => by
        have := h.settled hvalid
        rw [hsplit'] at this
        simp at this
      have horder : orderByReceiveSeq DepthDiff.receiveSeq whole.pending =
          (old ++ before) ++ first :: rest := by rw [hsplit', horder]
      have horder' : orderByReceiveSeq DepthDiff.receiveSeq part.pending =
          before ++ first :: rest := by rw [hsplit, horder']
      by_cases hstale : anchor < first.firstUpdateId
      · rw [tryBridge_stale whole hanchor hreceived horder hbefore' hfirst hstale,
          tryBridge_stale part hanchor' hreceived' horder' hbefore hfirst hstale]
        refine stepSame_none ?_ ?_
        · exact ⟨by simp [hne], .rfl, by simp, fun hvalid => absurd hvalid hne, hsublist, h.seen,
            cleanSide_nil, cleanSide_nil, fun _ _ => ⟨rfl, rfl, rfl⟩⟩
        · exact ⟨hr.connectionId, hr.valid_iff, rfl, rfl, rfl, fun _ => rfl, fun _ => rfl,
            ⟨[], rfl, by simp⟩, hr.seen⟩
      · have hover : first.firstUpdateId ≤ anchor := by omega
        cases hchain : SnapshotBridgeTracker.followChain first.finalUpdateId
            (rest.map DepthDiff.span) with
        | ok last =>
          obtain ⟨hbridged, hlast⟩ :=
            tryBridge_bridged whole hanchor hreceived horder hbefore' hfirst hover hchain
          obtain ⟨hbridged', hlast'⟩ :=
            tryBridge_bridged part hanchor' hreceived' horder' hbefore hfirst hover hchain
          rw [hbridged, hbridged', hr.connectionId]
          rw [foldl_apply_eq] at hlast hlast'
          rw [foldl_apply_eq whole, foldl_apply_eq part]
          refine ⟨_, _, _, rfl, rfl, ?_, ?_⟩
          · refine ⟨fun _ => ?_, .rfl, by simp, fun _ => rfl, List.nil_sublist _, h.seen, ?_, ?_,
              fun hvalid => absurd rfl hvalid⟩
            · exact fun hnone => by cases hlast.symm.trans hnone
            · exact cleanSide_foldl h.bids _ _
            · exact cleanSide_foldl h.asks _ _
          · exact ⟨hr.connectionId, .rfl, hlast.trans hlast'.symm, rfl, rfl,
              sameLevels_foldl hr.bids _ _, sameLevels_foldl hr.asks _ _, ⟨[], rfl, by simp⟩,
              hr.seen⟩
        | error broken =>
          obtain ⟨mid, diff, after, hrest, hspan, hbroken⟩ :=
            tryBridge_broken whole hanchor hreceived horder hbefore' hfirst hover hchain
          obtain ⟨mid', diff', after', hrest', hspan', hbroken'⟩ :=
            tryBridge_broken part hanchor' hreceived' horder' hbefore hfirst hover hchain
          have hlength : after.length = after'.length := by
            have := congrArg (fun p => p.2.length) (hspan.symm.trans hspan')
            simpa using this
          obtain ⟨-, htail⟩ := List.append_inj' (hrest.symm.trans hrest') (by simp [hlength])
          obtain ⟨rfl, rfl⟩ := List.cons.inj htail
          rw [hbroken, hbroken']
          refine stepSame_restartAt h hr (hsublist.subset ?_) _
          simp [hrest]

theorem Replayed.later (h : Replayed past whole) (row : DepthRow)
    (hrow : ∀ snapshot, row = .snapshot snapshot → whole.anchorLastUpdateId = none) :
    Replayed (past ++ [row]) whole where
  previous := h.previous
  anchored := h.anchored
  anchor_last := fun anchor hanchor => by
    obtain ⟨⟨snapshot, hm, hid⟩, hlast⟩ := h.anchor_last anchor hanchor
    refine ⟨⟨snapshot, List.mem_append_left _ hm, hid⟩, fun snapshot' hm' => ?_⟩
    rcases List.mem_append.mp hm' with hm' | hm'
    · exact hlast snapshot' hm'
    · rw [hrow snapshot' (List.mem_singleton.mp hm').symm] at hanchor
      cases hanchor
  settled := h.settled
  pending := h.pending.trans (List.sublist_append_left _ _)
  seen := fun identity hm => by
    obtain ⟨diff, hdiff, hid⟩ := h.seen identity hm
    exact ⟨diff, List.mem_append_left _ hdiff, hid⟩
  bids := h.bids
  asks := h.asks
  empty := h.empty

theorem Resumes.later (hr : Resumes past whole part) (row : DepthRow) :
    Resumes (past ++ [row]) whole part :=
  { hr with
    pending := by
      obtain ⟨old, hpending, hold⟩ := hr.pending
      refine ⟨old, hpending, fun diff hm => ?_⟩
      obtain ⟨snapshot, hsnapshot, hlt⟩ := hold diff hm
      exact ⟨snapshot, List.mem_append_left _ hsnapshot, hlt⟩ }

theorem identity_new {diff : DepthDiff}
    (hord : (past ++ [DepthRow.diff diff]).Pairwise DepthRow.InOrder) (h : Replayed past whole) :
    diff.identity ∉ whole.seenDiffs := by
  intro hm
  obtain ⟨earlier, hearlier, hid⟩ := h.seen _ hm
  have hlt := ((List.pairwise_append.mp hord).2.2 _ hearlier _ (List.mem_singleton_self _)).2
  have hfinal : earlier.finalUpdateId = diff.finalUpdateId := congrArg (fun i => i.2.1) hid
  omega

theorem replayed_remember (diff : DepthDiff) (h : Replayed past whole) :
    Replayed (past ++ [DepthRow.diff diff]) (whole.remember diff) :=
  { h.later (.diff diff) (by simp) with
    seen := fun identity hm => by
      rcases List.mem_cons.mp hm with rfl | hm
      · exact ⟨diff, by simp, rfl⟩
      · obtain ⟨earlier, hearlier, hid⟩ := h.seen identity hm
        exact ⟨earlier, List.mem_append_left _ hearlier, hid⟩ }

theorem resumes_remember (diff : DepthDiff) (hr : Resumes past whole part) :
    Resumes (past ++ [DepthRow.diff diff]) (whole.remember diff) (part.remember diff) :=
  { hr.later (.diff diff) with
    seen := fun identity hm => by
      rcases List.mem_cons.mp hm with rfl | hm
      · exact List.mem_cons_self
      · exact List.mem_cons_of_mem _ (hr.seen identity hm) }

theorem stepSame_onDiff (h : Replayed past whole) (hr : Resumes past whole part)
    {diff : DepthDiff} (hord : (past ++ [DepthRow.diff diff]).Pairwise DepthRow.InOrder) :
    StepSame (past ++ [DepthRow.diff diff]) (whole.onDiff diff) (part.onDiff diff) := by
  have hnew := identity_new hord h
  have hnew' : diff.identity ∉ part.seenDiffs := fun hm => hnew (hr.seen _ hm)
  have hremember := replayed_remember diff h
  have hresumes := resumes_remember diff hr
  by_cases hstate : whole.state = .valid
  · have hstate' : part.state = .valid := hr.valid_iff.mp hstate
    obtain ⟨id, hprevious⟩ := Option.ne_none_iff_exists'.mp (h.previous (.inl hstate))
    have hprevious' : part.previousUpdateId = some id := hr.previous ▸ hprevious
    by_cases hcont : sequenceContinues id diff.previousFinalUpdateId = true
    · rw [onDiff_continues hnew hstate hprevious hcont,
        onDiff_continues hnew' hstate' hprevious' hcont]
      refine stepSame_none ?_ ?_
      · exact { hremember with
          previous := fun _ => by simp
          bids := hremember.bids.applyLevels _
          asks := hremember.asks.applyLevels _
          empty := fun hne => absurd hstate hne }
      · exact { hresumes with
          previous := rfl
          bids := hresumes.bids.applyLevels _
          asks := hresumes.asks.applyLevels _ }
    · rw [onDiff_breaks hnew hstate hprevious hcont, onDiff_breaks hnew' hstate' hprevious' hcont]
      exact stepSame_restartAt hremember hresumes (by simp) _
  · have hstate' : part.state ≠ .valid := fun hvalid => hstate (hr.valid_iff.mpr hvalid)
    have hbuffer : Replayed (past ++ [DepthRow.diff diff]) ((whole.remember diff).buffer diff) :=
      { hremember with
        settled := fun hvalid => absurd hvalid hstate
        pending := by
          show ((whole.pending ++ [diff]).map DepthRow.diff).Sublist _
          rw [List.map_append]
          exact h.pending.append (.refl _) }
    have hbufferResumes : Resumes (past ++ [DepthRow.diff diff]) ((whole.remember diff).buffer diff)
        ((part.remember diff).buffer diff) :=
      { hresumes with
        pending := by
          obtain ⟨old, hpending, hold⟩ := hresumes.pending
          have hpending : whole.pending = old ++ part.pending := hpending
          refine ⟨old, ?_, hold⟩
          show whole.pending ++ [diff] = old ++ (part.pending ++ [diff])
          rw [hpending, List.append_assoc] }
    by_cases htry : ∀ anchor, whole.anchorLastUpdateId = some anchor → diff.overlaps anchor = true
    · rw [onDiff_tries hnew hstate htry, onDiff_tries hnew' hstate' (hr.anchor ▸ htry)]
      exact stepSame_tryBridge hbuffer hbufferResumes hord
    · obtain ⟨anchor, hanchor, hover⟩ : ∃ anchor, whole.anchorLastUpdateId = some anchor ∧
          ¬ diff.overlaps anchor = true := by simpa using htry
      rw [onDiff_buffers hnew hstate hanchor hover,
        onDiff_buffers hnew' hstate' (hr.anchor ▸ hanchor) hover]
      exact stepSame_none hbuffer hbufferResumes

theorem stepSame_onSnapshot (h : Replayed past whole) (hr : Resumes past whole part)
    {snapshot : DepthSnapshot}
    (hord : (past ++ [DepthRow.snapshot snapshot]).Pairwise DepthRow.InOrder) :
    StepSame (past ++ [DepthRow.snapshot snapshot]) (whole.onSnapshot snapshot)
      (part.onSnapshot snapshot) := by
  refine stepSame_tryBridge ?_ ?_ hord
  · refine ⟨fun _ => by simp [anchorAt], by simp [anchorAt], ?_, h.settled,
      h.pending.trans (List.sublist_append_left _ _), fun identity hm => ?_,
      cleanSide_bookSide _, cleanSide_bookSide _, fun _ hnone => by simp [anchorAt] at hnone⟩
    · intro anchor hanchor
      obtain rfl : snapshot.lastUpdateId = anchor := by simpa [anchorAt] using hanchor
      refine ⟨⟨snapshot, by simp, rfl⟩, fun earlier hm => ?_⟩
      rcases List.mem_append.mp hm with hm | hm
      · exact (List.pairwise_append.mp hord).2.2 _ hm _ (List.mem_singleton_self _)
      · cases List.mem_singleton.mp hm
        exact le_rfl
    · obtain ⟨diff, hdiff, hid⟩ := h.seen identity hm
      exact ⟨diff, List.mem_append_left _ hdiff, hid⟩
  · exact { hr.later (.snapshot snapshot) with
      previous := rfl
      anchor := rfl
      received := rfl
      bids := fun _ => rfl
      asks := fun _ => rfl }

theorem stepSame_onRow (h : Replayed past whole) (hr : Resumes past whole part) {row : DepthRow}
    (hord : (past ++ [row]).Pairwise DepthRow.InOrder) :
    StepSame (past ++ [row]) (whole.onRow row) (part.onRow row) := by
  cases row with
  | diff diff => exact stepSame_onDiff h hr hord
  | snapshot snapshot => exact stepSame_onSnapshot h hr hord

theorem resumes_refl (past : List DepthRow) (book : ConnectionBook) : Resumes past book book :=
  ⟨rfl, .rfl, rfl, rfl, rfl, fun _ => rfl, fun _ => rfl, ⟨[], rfl, by simp⟩, fun _ => id⟩

theorem replay_ok {rows : List DepthRow} (h : Replayed past whole)
    (hord : (past ++ rows).Pairwise DepthRow.InOrder) :
    ∃ book, whole.replay rows = .ok book ∧ Replayed (past ++ rows) book := by
  induction rows generalizing past whole with
  | nil => exact ⟨whole, rfl, by rwa [List.append_nil]⟩
  | cons row rows ih =>
    rw [← List.singleton_append, ← List.append_assoc] at hord ⊢
    obtain ⟨book, -, change, hrow, -, hbook, -⟩ :=
      stepSame_onRow h (resumes_refl past whole) (List.pairwise_append.mp hord).1
    obtain ⟨last, hlast, hreplayed⟩ := ih hbook hord
    refine ⟨last, ?_, hreplayed⟩
    rw [List.singleton_append, replay, hrow]
    exact hlast

/-- Books that match at midnight become valid together from there on. -/
theorem agree_of_resumes {rows : List DepthRow} (h : Replayed past whole)
    (hr : Resumes past whole part) (hord : (past ++ rows).Pairwise DepthRow.InOrder) :
    Agree whole part rows := by
  induction rows generalizing past whole part with
  | nil => exact ⟨[], [], rfl, rfl, .nil⟩
  | cons row rows ih =>
    rw [← List.singleton_append, ← List.append_assoc] at hord
    obtain ⟨whole', change, part', change', hrow, hrow', hwhole, hresumes, hsame⟩ :=
      (stepSame_onRow h hr (List.pairwise_append.mp hord).1).alike
    obtain ⟨a, b, ha, hb, hsame'⟩ := ih hwhole hresumes hord
    refine ⟨whole'.bridgeOf change :: a, part'.bridgeOf change' :: b, ?_, ?_, .cons hsame hsame'⟩
    · rw [bridges, hrow]
      simp only [bind, Except.bind, ha]
      rfl
    · rw [bridges, hrow']
      simp only [bind, Except.bind, hb]
      rfl

/-! ## What the checkpoint keeps -/

theorem set_new {side : Levels} {level : DecimalText × String}
    (h : ∀ entry ∈ side, price entry.1 ≠ price level.1) :
    KeyedDict.set price level.1 level.2 side = side ++ [level] := by
  induction side with
  | nil => rfl
  | cons entry side ih =>
    obtain ⟨key, value⟩ := entry
    have hrest := ih fun e hm => h e (List.mem_cons_of_mem _ hm)
    rw [KeyedDict.set, if_neg (h _ List.mem_cons_self), hrest]
    rfl

theorem bookSide_clean {side : Levels} (h : CleanSide side) : bookSide side = side := by
  induction side using List.reverseRecOn with
  | nil => rfl
  | append_singleton side level ih =>
    obtain ⟨hdistinct, hnonzero⟩ := h
    have hside : CleanSide side := by
      refine ⟨?_, fun entry hm => hnonzero entry (List.mem_append_left _ hm)⟩
      exact hdistinct.sublist ((List.sublist_append_left side [level]).map _)
    have hlevel : isZero level.2 = false := hnonzero level (by simp)
    rw [bookSide, List.foldl_append, ← bookSide, ih hside]
    simp only [List.foldl_cons, List.foldl_nil, hlevel, Bool.false_eq_true, if_false]
    refine set_new fun entry hm => ?_
    rw [Distinct, List.map_append] at hdistinct
    exact (List.nodup_append.mp hdistinct).2.2 _ (List.mem_map_of_mem hm) _ (by simp)

theorem sameLevels_checkpoint {side : Levels} (h : CleanSide side) :
    SameLevels side (bookSide (checkpointLevels side)) := by
  have hperm : (checkpointLevels side).Perm side := List.perm_insertionSort _ _
  have hclean : CleanSide (checkpointLevels side) :=
    ⟨(hperm.map _).nodup_iff.mpr h.1, fun entry hm => h.2 entry (hperm.mem_iff.mp hm)⟩
  rw [bookSide_clean hclean]
  exact get_perm hperm.symm h.1

/-- The book has an anchor and levels that `_build_checkpoint` writes. -/
def WaitsAnchored (book : ConnectionBook) : Prop :=
  book.anchorLastUpdateId ≠ none ∧ book.anchorReceivedNs ≠ none ∧ book.bids ≠ [] ∧ book.asks ≠ []

instance (book : ConnectionBook) : Decidable book.WaitsAnchored :=
  inferInstanceAs (Decidable (_ ∧ _ ∧ _ ∧ _))

theorem checkpointLevels_eq_nil {side : Levels} : checkpointLevels side = [] ↔ side = [] := by
  have hperm : (checkpointLevels side).Perm side := List.perm_insertionSort _ _
  constructor
  · intro h
    exact List.perm_nil.mp (h ▸ hperm).symm
  · rintro rfl
    rfl

theorem filter_split {diffs : List DepthDiff}
    (h : diffs.Pairwise fun a b => a.finalUpdateId < b.finalUpdateId) (anchor : Int) :
    diffs = (diffs.filter fun diff => ¬ anchor ≤ diff.finalUpdateId) ++
      diffs.filter fun diff => anchor ≤ diff.finalUpdateId := by
  induction diffs with
  | nil => rfl
  | cons diff diffs ih =>
    obtain ⟨hafter, h⟩ := List.pairwise_cons.mp h
    by_cases hreach : anchor ≤ diff.finalUpdateId
    · have hall : ∀ later ∈ diff :: diffs, anchor ≤ later.finalUpdateId := by
        intro later hm
        rcases List.mem_cons.mp hm with rfl | hm
        · exact hreach
        · exact hreach.trans (hafter later hm).le
      rw [List.filter_eq_nil_iff.mpr, List.filter_eq_self.mpr, List.nil_append]
      · exact fun later hm => by simpa using hall later hm
      · exact fun later hm => by simpa using hall later hm
    · rw [List.filter_cons_of_pos (by simpa using hreach),
        List.filter_cons_of_neg (by simpa using hreach), List.cons_append, ← ih h]

/-- An anchored book that is written and read goes on like before. -/
theorem resumes_anchored (h : Replayed past whole) (hord : past.Pairwise DepthRow.InOrder)
    (hwaits : whole.WaitsAnchored) (hstate : whole.state ≠ .valid) :
    ∃ checkpoint, whole.anchorCheckpoint = .ok checkpoint ∧
      Resumes past whole (fromAnchorCheckpoint checkpoint) := by
  obtain ⟨hanchor, hreceived, hbids, hasks⟩ := hwaits
  obtain ⟨previous, hprevious⟩ := Option.ne_none_iff_exists'.mp (h.previous (.inr hanchor))
  obtain ⟨anchor, hanchor⟩ := Option.ne_none_iff_exists'.mp hanchor
  obtain ⟨receivedNs, hreceived⟩ := Option.ne_none_iff_exists'.mp hreceived
  have hunbridged : whole.state ≠ .valid ∧ checkpointLevels whole.bids ≠ [] ∧
      checkpointLevels whole.asks ≠ [] :=
    ⟨hstate, mt checkpointLevels_eq_nil.mp hbids, mt checkpointLevels_eq_nil.mp hasks⟩
  refine ⟨⟨whole.connectionId, whole.state, previous, anchor, receivedNs,
    checkpointLevels whole.bids, checkpointLevels whole.asks,
    whole.pending.filter fun diff => anchor ≤ diff.finalUpdateId, hunbridged⟩, ?_, ?_⟩
  · simp only [anchorCheckpoint, hprevious, hanchor, hreceived, dif_pos hunbridged]
  · refine ⟨rfl, .rfl, hprevious, hanchor, hreceived, sameLevels_checkpoint h.bids,
      sameLevels_checkpoint h.asks, ?_, by simp [fromAnchorCheckpoint]⟩
    obtain ⟨⟨snapshot, hsnapshot, hid⟩, -⟩ := h.anchor_last anchor hanchor
    have hordered := pending_ordered h.pending hord
    -- Update ids increase, so the diffs that are left out come first.
    refine ⟨whole.pending.filter fun diff => ¬ anchor ≤ diff.finalUpdateId, ?_, fun diff hm => ?_⟩
    · exact filter_split (hordered.imp fun h => h.2) anchor
    · refine ⟨snapshot, hsnapshot, ?_⟩
      have := (List.mem_filter.mp hm).2
      simp only [decide_eq_true_eq] at this
      omega

end ConnectionBook

/-! ## Midnight -/

namespace DayReplay

/-- The `final_book` of `run`. -/
def finalBook (replay : DayReplay) : Option ConnectionBook :=
  if replay.activeGaps ≠ [] then none else replay.authority.bind replay.book?

end DayReplay

open ConnectionBook

/-- The end of a day, for a connection whose rows of the day are `before`. -/
structure Midnight where
  day : L2Day
  next : L2Day
  replay : DayReplay
  connectionId : String
  before : List DepthRow
  book : ConnectionBook
  ordered : before.Pairwise DepthRow.InOrder
  replayed : ConnectionBook.replay { connectionId } before = .ok book
  stored : replay.book? connectionId = some book
  distinct : KeyedDict.Distinct id replay.books
  named : ∀ entry ∈ replay.books, entry.2.connectionId = entry.1

namespace Midnight

variable (midnight : Midnight)

/-- The book with which the next day goes on: `_build_checkpoint`, and the start of `run`. -/
def carryOver : Except String ConnectionBook := do
  let checkpoint ← midnight.day.buildCheckpoint midnight.replay.finalBook midnight.replay.books
  let restored ← midnight.next.restore (some checkpoint)
  return (restored.book? midnight.connectionId).getD { connectionId := midnight.connectionId }

def HasAuthority : Prop :=
  midnight.replay.activeGaps = [] ∧ midnight.replay.authority = some midnight.connectionId

/-- The rows may be the connection's rows after midnight. -/
def Follows (after : List DepthRow) : Prop :=
  (midnight.before ++ after).Pairwise DepthRow.InOrder ∧
    ∀ row ∈ after, row.connectionId = midnight.connectionId ∧ midnight.day.endNs ≤ row.receivedNs

/-- The checkpoint is written, and whatever comes after midnight makes the book valid at the same
rows, with the same levels. -/
def SplitAgrees : Prop :=
  ∃ part, midnight.carryOver = .ok part ∧
    ∀ after, midnight.Follows after → Agree midnight.book part after

/-- No book with an anchor and levels is already bridged, so that all of them can be written. -/
def Writes : Prop :=
  ∀ entry ∈ midnight.replay.books, entry.2.WaitsAnchored →
    entry.2.state ≠ .valid ∧ entry.2.previousUpdateId ≠ none

/-- The checkpoint is written and carries the book over, or the book has nothing that a snapshot
can still reach. -/
def Carries : Prop :=
  let book := midnight.book
  midnight.Writes ∧
    ((book.state = .valid ∧ midnight.HasAuthority ∧ book.bids ≠ [] ∧ book.asks ≠ []) ∨
    (book.state ≠ .valid ∧ book.WaitsAnchored) ∨
    (book.state ≠ .valid ∧ book.anchorLastUpdateId = none ∧ ∀ diff ∈ book.pending,
      ∃ snapshot, .snapshot snapshot ∈ midnight.before ∧
        diff.finalUpdateId < snapshot.lastUpdateId))

end Midnight

/-! ## The checkpoint in between -/

namespace L2Day

theorem restoreAnchored_total {anchored : List AnchoredBookCheckpoint}
    {books : List (String × ConnectionBook)}
    (hnew : ∀ a ∈ anchored, KeyedDict.get id a.connectionId books = none)
    (hnodup : (anchored.map AnchoredBookCheckpoint.connectionId).Nodup) :
    ∃ books', restoreAnchored books anchored = .ok books' ∧
      (∀ a ∈ anchored, KeyedDict.get id a.connectionId books' = some (fromAnchorCheckpoint a)) ∧
      ∀ c, (∀ a ∈ anchored, a.connectionId ≠ c) →
        KeyedDict.get id c books' = KeyedDict.get id c books := by
  induction anchored generalizing books with
  | nil => exact ⟨books, rfl, by simp, fun _ _ => rfl⟩
  | cons a anchored ih =>
    obtain ⟨hfirst, hnodup⟩ := List.nodup_cons.mp hnodup
    have hne : ∀ later ∈ anchored, a.connectionId ≠ later.connectionId := fun later hm heq =>
      hfirst (List.mem_map.mpr ⟨later, hm, heq.symm⟩)
    obtain ⟨books', hok, hanchored, hothers⟩ :=
      @ih (KeyedDict.set id a.connectionId (fromAnchorCheckpoint a) books)
        (fun later hm => by
          rw [KeyedDict.get_set, id, if_neg (hne later hm)]
          exact hnew later (List.mem_cons_of_mem _ hm)) hnodup
    refine ⟨books', ?_, fun later hm => ?_, fun c hc => ?_⟩
    · rw [restoreAnchored, if_neg (by simp [hnew a List.mem_cons_self])]
      exact hok
    · rcases List.mem_cons.mp hm with rfl | hm
      · rw [hothers _ fun later hlater => (hne later hlater).symm, KeyedDict.get_set, id, if_pos rfl]
      · exact hanchored later hm
    · rw [hothers c fun later hm => hc later (List.mem_cons_of_mem _ hm), KeyedDict.get_set, id,
        if_neg (hc a List.mem_cons_self)]

variable (day next : L2Day) {final : Option ConnectionBook} {books : List (String × ConnectionBook)}

/-- The authoritative book as a checkpoint keeps it. -/
def keptBook (book : ConnectionBook) : ConnectionBook where
  connectionId := book.connectionId
  state := .valid
  bids := bookSide (checkpointLevels book.bids)
  asks := bookSide (checkpointLevels book.asks)
  previousUpdateId := book.previousUpdateId

/-- The final book is kept by the checkpoint. -/
def Keeps (final : Option ConnectionBook) (book : ConnectionBook) : Prop :=
  final = some book ∧ book.state = .valid ∧ book.previousUpdateId ≠ none ∧ book.bids ≠ [] ∧
    book.asks ≠ []

section Build
variable {anchored : List AnchoredBookCheckpoint} (hmap : (books.filter fun entry =>
    entry.2.WaitsAnchored).mapM (fun entry => entry.2.anchorCheckpoint) = .ok anchored)
include hmap

theorem build_kept {book : ConnectionBook} (hkeeps : Keeps final book) :
    ∃ checkpoint, day.buildCheckpoint final books = .ok checkpoint ∧ checkpoint.state = .valid ∧
      checkpoint.anchoredBooks = anchored ∧ fromCheckpoint checkpoint = .ok (keptBook book) := by
  obtain ⟨rfl, hstate, hprevious, hbids, hasks⟩ := hkeeps
  have hcomplete : book.state = .valid ∧ book.previousUpdateId ≠ none ∧
      checkpointLevels book.bids ≠ [] ∧ checkpointLevels book.asks ≠ [] :=
    ⟨hstate, hprevious, mt checkpointLevels_eq_nil.mp hbids, mt checkpointLevels_eq_nil.mp hasks⟩
  have hmap : (books.filter fun entry => entry.2.anchorLastUpdateId ≠ none ∧
      entry.2.anchorReceivedNs ≠ none ∧ entry.2.bids ≠ [] ∧ entry.2.asks ≠ []).mapM
      (fun entry => entry.2.anchorCheckpoint) = .ok anchored := hmap
  unfold buildCheckpoint
  simp only [hmap, bind, Except.bind, dif_pos hcomplete]
  exact ⟨_, rfl, rfl, rfl, rfl⟩

theorem build_unkept (hkeeps : ¬ ∃ book, Keeps final book) :
    ∃ checkpoint, day.buildCheckpoint final books = .ok checkpoint ∧ checkpoint.state ≠ .valid ∧
      checkpoint.anchoredBooks = anchored := by
  have hmap : (books.filter fun entry => entry.2.anchorLastUpdateId ≠ none ∧
      entry.2.anchorReceivedNs ≠ none ∧ entry.2.bids ≠ [] ∧ entry.2.asks ≠ []).mapM
      (fun entry => entry.2.anchorCheckpoint) = .ok anchored := hmap
  unfold buildCheckpoint
  simp only [hmap, bind, Except.bind]
  cases final with
  | none => exact ⟨_, rfl, by simp, rfl⟩
  | some book =>
    have hincomplete : ¬ (book.state = .valid ∧ book.previousUpdateId ≠ none ∧
        checkpointLevels book.bids ≠ [] ∧ checkpointLevels book.asks ≠ []) := by
      rintro ⟨hstate, hprevious, hbids, hasks⟩
      exact hkeeps ⟨book, rfl, hstate, hprevious, mt checkpointLevels_eq_nil.mpr hbids,
        mt checkpointLevels_eq_nil.mpr hasks⟩
    simp only [dif_neg hincomplete]
    exact ⟨_, rfl, by simp, rfl⟩

end Build

section Restore
variable {checkpoint : L2Checkpoint} {anchored : List AnchoredBookCheckpoint}
  {books' : List (String × ConnectionBook)}

theorem restore_kept (hstate : checkpoint.state = .valid)
    (hcheckpoint : checkpoint.anchoredBooks = anchored) {book : ConnectionBook}
    (hfrom : fromCheckpoint checkpoint = .ok (keptBook book))
    (hrestored : restoreAnchored [(book.connectionId, keptBook book)] anchored = .ok books') :
    next.restore (some checkpoint) = .ok {
      books := books'
      authority := some book.connectionId
      validFrom := some next.startNs
      lastValidConnection := some book.connectionId } := by
  have hrestored : restoreAnchored [((keptBook book).connectionId, keptBook book)]
      checkpoint.anchoredBooks = .ok books' := hcheckpoint ▸ hrestored
  simp only [restore, if_pos hstate, hfrom, bind, Except.bind, hrestored]
  rfl

theorem restore_unkept (hstate : checkpoint.state ≠ .valid)
    (hcheckpoint : checkpoint.anchoredBooks = anchored)
    (hrestored : restoreAnchored [] anchored = .ok books') :
    next.restore (some checkpoint) = .ok { books := books' } := by
  simp only [restore, if_neg hstate, bind, Except.bind, hcheckpoint, hrestored]
  rfl

end Restore

/-- A written checkpoint and the books that the next day restores from it. -/
theorem restore_build (hwrites : ∀ entry ∈ books, entry.2.WaitsAnchored →
      ∃ checkpoint, entry.2.anchorCheckpoint = .ok checkpoint)
    (hnamed : ∀ entry ∈ books, entry.2.connectionId = entry.1)
    (hdistinct : KeyedDict.Distinct id books)
    (hfinal : ∀ book, Keeps final book → ∃ entry ∈ books, entry.2 = book ∧ ¬ book.WaitsAnchored) :
    ∃ checkpoint restored, day.buildCheckpoint final books = .ok checkpoint ∧
      next.restore (some checkpoint) = .ok restored ∧
      (∀ entry ∈ books, entry.2.WaitsAnchored → ∀ a, entry.2.anchorCheckpoint = .ok a →
        restored.book? entry.1 = some (fromAnchorCheckpoint a)) ∧
      (∀ book, Keeps final book → restored.book? book.connectionId = some (keptBook book)) ∧
      ∀ entry ∈ books, ¬ entry.2.WaitsAnchored → ¬ Keeps final entry.2 →
        restored.book? entry.1 = none := by
  obtain ⟨anchored, hmap⟩ := @mapM_total _ _ _ (fun entry : String × ConnectionBook =>
      entry.2.anchorCheckpoint) (books.filter fun entry => entry.2.WaitsAnchored)
    (by
      intro entry hm
      obtain ⟨hm, hwaits⟩ := List.mem_filter.mp hm
      exact hwrites entry hm (of_decide_eq_true hwaits))
  have hpairs := forall₂_of_mapM_ok hmap
  have hids : anchored.map AnchoredBookCheckpoint.connectionId =
      (books.filter fun entry => entry.2.WaitsAnchored).map Prod.fst := by
    refine (map_eq_of_forall₂ hpairs fun entry a hm hok => ?_).symm
    rw [(anchorCheckpoint_ok hok).1, hnamed entry (List.mem_of_mem_filter hm)]
  have hnodup : (anchored.map AnchoredBookCheckpoint.connectionId).Nodup := by
    rw [hids]
    exact hdistinct.sublist (List.filter_sublist.map _)
  have hfound : ∀ entry ∈ books, entry.2.WaitsAnchored → ∀ a, entry.2.anchorCheckpoint = .ok a →
      a ∈ anchored ∧ a.connectionId = entry.1 := by
    intro entry hm hwaits a hok
    obtain ⟨a', ha', hok'⟩ := exists_of_forall₂ hpairs
      (List.mem_filter.mpr ⟨hm, decide_eq_true hwaits⟩)
    obtain rfl : a = a' := Except.ok.inj (hok.symm.trans hok')
    exact ⟨ha', by rw [(anchorCheckpoint_ok hok).1, hnamed entry hm]⟩
  have hmissing : ∀ entry ∈ books, ¬ entry.2.WaitsAnchored → ∀ a ∈ anchored,
      a.connectionId ≠ entry.1 := by
    intro entry hm hwaits a ha heq
    have hkey : entry.1 ∈ (books.filter fun entry => entry.2.WaitsAnchored).map Prod.fst := by
      rw [← hids, ← heq]
      exact List.mem_map_of_mem ha
    obtain ⟨other, hother, hsame⟩ := List.mem_map.mp hkey
    obtain ⟨hother, hwaits'⟩ := List.mem_filter.mp hother
    obtain rfl : other = entry := List.inj_on_of_nodup_map hdistinct hother hm hsame
    exact hwaits (of_decide_eq_true hwaits')
  by_cases hkeeps : ∃ book, Keeps final book
  · obtain ⟨book, hkeeps⟩ := hkeeps
    obtain ⟨entry, hentry, rfl, hnot⟩ := hfinal book hkeeps
    have hname := hnamed entry hentry
    obtain ⟨checkpoint, hbuild, hstate, hcheckpoint, hfrom⟩ := build_kept day hmap hkeeps
    obtain ⟨books', hrestored, hanchored, hothers⟩ := @restoreAnchored_total anchored
      [(entry.2.connectionId, keptBook entry.2)]
      (fun a ha => by
        rw [KeyedDict.get, id, if_neg, KeyedDict.get_nil]
        rw [hname]
        exact (hmissing entry hentry hnot a ha).symm) hnodup
    refine ⟨checkpoint, _, hbuild, restore_kept next hstate hcheckpoint hfrom hrestored, ?_, ?_, ?_⟩
    · intro other hother hwaits a hok
      obtain ⟨ha, hid⟩ := hfound other hother hwaits a hok
      exact hid ▸ hanchored a ha
    · intro book hkeeps'
      obtain rfl : entry.2 = book := Option.some.inj (hkeeps.1.symm.trans hkeeps'.1)
      show KeyedDict.get id entry.2.connectionId books' = _
      rw [hothers _ (by rw [hname]; exact hmissing entry hentry hnot), KeyedDict.get, id, if_pos rfl]
    · intro other hother hwaits hkeeps'
      show KeyedDict.get id other.1 books' = none
      rw [hothers _ (hmissing other hother hwaits), KeyedDict.get, id, if_neg, KeyedDict.get_nil]
      intro heq
      rw [hname] at heq
      obtain rfl : entry = other := List.inj_on_of_nodup_map hdistinct hentry hother heq
      exact hkeeps' hkeeps
  · obtain ⟨checkpoint, hbuild, hstate, hcheckpoint⟩ := build_unkept day hmap hkeeps
    obtain ⟨books', hrestored, hanchored, hothers⟩ := @restoreAnchored_total anchored []
      (fun _ _ => rfl) hnodup
    refine ⟨checkpoint, _, hbuild, restore_unkept next hstate hcheckpoint hrestored, ?_, ?_, ?_⟩
    · intro other hother hwaits a hok
      obtain ⟨ha, hid⟩ := hfound other hother hwaits a hok
      exact hid ▸ hanchored a ha
    · intro book hkeeps'
      exact absurd ⟨book, hkeeps'⟩ hkeeps
    · intro other hother hwaits _
      show KeyedDict.get id other.1 books' = none
      rw [hothers _ (hmissing other hother hwaits), KeyedDict.get_nil]

end L2Day

/-! ## The split at midnight -/

namespace ConnectionBook

variable {whole part : ConnectionBook}

theorem Agree.cons {row : DepthRow} {rows : List DepthRow} (h : Agree whole part (row :: rows))
    {whole' part' : ConnectionBook} {change change' : Option StateChange}
    (hwhole : whole.onRow row = .ok (whole', change))
    (hpart : part.onRow row = .ok (part', change')) :
    Option.Rel Bridge.Same (whole'.bridgeOf change) (part'.bridgeOf change') ∧
      Agree whole' part' rows := by
  obtain ⟨a, b, ha, hb, hsame⟩ := h
  rw [bridges] at ha hb
  obtain ⟨_, hfirst, ha⟩ := exists_of_bind_ok ha
  obtain ⟨_, hfirst', hb⟩ := exists_of_bind_ok hb
  cases hwhole.symm.trans hfirst
  cases hpart.symm.trans hfirst'
  obtain ⟨later, ha', ha⟩ := exists_of_bind_ok ha
  obtain ⟨later', hb', hb⟩ := exists_of_bind_ok hb
  cases ha
  cases hb
  cases hsame with
  | cons hfirst hrest => exact ⟨hfirst, later, later', ha', hb', hrest⟩

/-- The last buffered diff is the only one that reaches the anchor, and bridges it. -/
theorem tryBridge_last {book : ConnectionBook} {anchor receivedNs : Int} {old : List DepthDiff}
    {diff : DepthDiff} (hanchor : book.anchorLastUpdateId = some anchor)
    (hreceived : book.anchorReceivedNs = some receivedNs) (hpending : book.pending = old ++ [diff])
    (hordered : book.pending.Pairwise fun a b => a.receiveSeq ≤ b.receiveSeq)
    (hold : ∀ earlier ∈ old, earlier.finalUpdateId < anchor)
    (hfirst : diff.firstUpdateId ≤ anchor) (hfinal : anchor ≤ diff.finalUpdateId) :
    ∃ bridged change, book.tryBridge = .ok (bridged, some change) ∧ change.state = .valid := by
  have horder : orderByReceiveSeq DepthDiff.receiveSeq book.pending = old ++ diff :: [] := by
    rw [orderByReceiveSeq_of_pairwise hordered, hpending]
  obtain ⟨hbridged, -⟩ :=
    @tryBridge_bridged book _ _ _ _ _ hanchor hreceived horder hold hfinal hfirst diff.finalUpdateId rfl
  exact ⟨_, _, hbridged, rfl⟩

theorem not_same_some {book : ConnectionBook} {change : StateChange} (hvalid : change.state = .valid) :
    ¬ Option.Rel Bridge.Same none (book.bridgeOf (some change)) := by
  rw [bridgeOf, if_pos hvalid]
  intro h
  cases h

theorem not_some_same {book : ConnectionBook} {change : StateChange} (hvalid : change.state = .valid) :
    ¬ Option.Rel Bridge.Same (book.bridgeOf (some change)) none := by
  rw [bridgeOf, if_pos hvalid]
  intro h
  cases h

theorem exists_bound (rows : List DepthRow) : ∃ bound : Int,
    (∀ diff, .diff diff ∈ rows → diff.finalUpdateId < bound ∧ diff.receiveSeq < bound) ∧
      ∀ snapshot, .snapshot snapshot ∈ rows → snapshot.lastUpdateId ≤ bound := by
  induction rows with
  | nil => exact ⟨0, by simp, by simp⟩
  | cons row rows ih =>
    obtain ⟨bound, hdiff, hsnapshot⟩ := ih
    cases row with
    | diff first =>
      refine ⟨max bound (max first.finalUpdateId first.receiveSeq + 1), fun diff hm => ?_,
        fun snapshot hm => ?_⟩
      · rcases List.mem_cons.mp hm with heq | hm
        · cases heq
          omega
        · have := hdiff diff hm
          omega
      · rcases List.mem_cons.mp hm with heq | hm
        · cases heq
        · have := hsnapshot snapshot hm
          omega
    | snapshot first =>
      refine ⟨max bound first.lastUpdateId, fun diff hm => ?_, fun snapshot hm => ?_⟩
      · rcases List.mem_cons.mp hm with heq | hm
        · cases heq
        · have := hdiff diff hm
          omega
      · rcases List.mem_cons.mp hm with heq | hm
        · cases heq
          omega
        · have := hsnapshot snapshot hm
          omega

end ConnectionBook

namespace Midnight

variable (midnight : Midnight)

/-- The levels of the rows that tell two books apart. -/
def probeLevels (text : String) (h : (Decimal.parse text.toList).isSome) : Levels :=
  [(⟨text, h⟩, "1")]

/-- A snapshot that is received at midnight. -/
def snapshotAt (lastUpdateId : Int) : DepthSnapshot where
  connectionId := midnight.connectionId
  receiveSeq := lastUpdateId
  receivedNs := midnight.day.endNs
  lastUpdateId
  bids := probeLevels "1" (by decide)
  asks := probeLevels "2" (by decide)

/-- A diff that is received at midnight. -/
def diffAt (firstUpdateId finalUpdateId receiveSeq : Int) : DepthDiff where
  connectionId := midnight.connectionId
  receiveSeq
  receivedNs := midnight.day.endNs
  firstUpdateId
  finalUpdateId
  previousFinalUpdateId := 0
  payloadHash := []
  bids := probeLevels "1" (by decide)
  asks := probeLevels "2" (by decide)

def fresh : ConnectionBook := { connectionId := midnight.connectionId }

theorem replayed_book : Replayed midnight.before midnight.book := by
  obtain ⟨book, hbook, h⟩ := @replay_ok _ _ midnight.before
    (replayed_fresh midnight.connectionId) (by simpa using midnight.ordered)
  obtain rfl : book = midnight.book := Except.ok.inj (hbook.symm.trans midnight.replayed)
  simpa using h

theorem entry_mem : (midnight.connectionId, midnight.book) ∈ midnight.replay.books := by
  obtain ⟨id, hm, hid⟩ := KeyedDict.mem_of_get midnight.stored
  obtain rfl : id = midnight.connectionId := hid
  exact hm

theorem book_connectionId : midnight.book.connectionId = midnight.connectionId :=
  midnight.named _ midnight.entry_mem

/-- The checkpoint keeps the book exactly when it is valid, with authority and levels. -/
theorem keeps_iff : L2Day.Keeps midnight.replay.finalBook midnight.book ↔
    midnight.book.state = .valid ∧ midnight.HasAuthority ∧ midnight.book.bids ≠ [] ∧
      midnight.book.asks ≠ [] := by
  constructor
  · intro ⟨hfinal, hstate, _, hbids, hasks⟩
    refine ⟨hstate, ?_, hbids, hasks⟩
    unfold DayReplay.finalBook at hfinal
    split at hfinal
    · cases hfinal
    · rename_i hgaps
      obtain ⟨id, hauthority, hbook⟩ := Option.bind_eq_some_iff.mp hfinal
      refine ⟨not_not.mp hgaps, ?_⟩
      obtain ⟨key, hm, hkey⟩ := KeyedDict.mem_of_get hbook
      rw [hauthority, ← midnight.book_connectionId, midnight.named _ hm]
      exact congrArg some hkey.symm
  · intro ⟨hstate, ⟨hgaps, hauthority⟩, hbids, hasks⟩
    refine ⟨?_, hstate, midnight.replayed_book.previous (.inl hstate), hbids, hasks⟩
    rw [DayReplay.finalBook, if_neg (not_not.mpr hgaps), hauthority]
    exact midnight.stored

theorem final_mem {book : ConnectionBook}
    (h : L2Day.Keeps midnight.replay.finalBook book) :
    ∃ entry ∈ midnight.replay.books, entry.2 = book := by
  obtain ⟨hfinal, -⟩ := h
  unfold DayReplay.finalBook at hfinal
  split at hfinal
  · cases hfinal
  · obtain ⟨id, -, hbook⟩ := Option.bind_eq_some_iff.mp hfinal
    obtain ⟨key, hm, -⟩ := KeyedDict.mem_of_get hbook
    exact ⟨_, hm, rfl⟩

theorem anchorCheckpoint_total {book : ConnectionBook} (hwaits : book.WaitsAnchored)
    (hstate : book.state ≠ .valid) (hprevious : book.previousUpdateId ≠ none) :
    ∃ checkpoint, book.anchorCheckpoint = .ok checkpoint := by
  obtain ⟨hanchor, hreceived, hbids, hasks⟩ := hwaits
  obtain ⟨previous, hprevious⟩ := Option.ne_none_iff_exists'.mp hprevious
  obtain ⟨anchor, hanchor⟩ := Option.ne_none_iff_exists'.mp hanchor
  obtain ⟨receivedNs, hreceived⟩ := Option.ne_none_iff_exists'.mp hreceived
  have hunbridged : book.state ≠ .valid ∧ checkpointLevels book.bids ≠ [] ∧
      checkpointLevels book.asks ≠ [] :=
    ⟨hstate, mt checkpointLevels_eq_nil.mp hbids, mt checkpointLevels_eq_nil.mp hasks⟩
  exact ⟨_, by simp only [anchorCheckpoint, hprevious, hanchor, hreceived, dif_pos hunbridged]; rfl⟩

/-- The checkpoint of a day is written only if no anchored book is bridged. -/
theorem writes_of_carryOver {part : ConnectionBook} (h : midnight.carryOver = .ok part) :
    midnight.Writes := by
  intro entry hm hwaits
  obtain ⟨checkpoint, hbuild, -⟩ := exists_of_bind_ok h
  obtain ⟨anchored, hmap, -⟩ := exists_of_bind_ok hbuild
  obtain ⟨a, -, hok⟩ := exists_of_forall₂ (forall₂_of_mapM_ok hmap)
    (List.mem_filter.mpr ⟨hm, decide_eq_true hwaits⟩)
  unfold anchorCheckpoint at hok
  split at hok
  · rename_i hprevious _ _
    split at hok
    · rename_i hunbridged
      exact ⟨hunbridged.1, by rw [hprevious]; simp⟩
    · cases hok
  · cases hok

theorem carryOver_of_writes (h : midnight.Writes) :
    ∃ part, midnight.carryOver = .ok part ∧
      (midnight.book.WaitsAnchored → ∀ a, midnight.book.anchorCheckpoint = .ok a →
        part = fromAnchorCheckpoint a) ∧
      (L2Day.Keeps midnight.replay.finalBook midnight.book →
        part = L2Day.keptBook midnight.book) ∧
      (¬ midnight.book.WaitsAnchored →
        ¬ L2Day.Keeps midnight.replay.finalBook midnight.book → part = midnight.fresh) := by
  obtain ⟨checkpoint, restored, hbuild, hrestore, hanchored, hkept, hdropped⟩ :=
    L2Day.restore_build midnight.day midnight.next
      (fun entry hm hwaits => anchorCheckpoint_total hwaits (h entry hm hwaits).1
        (h entry hm hwaits).2) midnight.named midnight.distinct
      (fun book hkeeps => by
        obtain ⟨entry, hm, rfl⟩ := midnight.final_mem hkeeps
        exact ⟨entry, hm, rfl, fun hwaits => (h entry hm hwaits).1 hkeeps.2.1⟩)
  refine ⟨(restored.book? midnight.connectionId).getD midnight.fresh, ?_, ?_, ?_, ?_⟩
  · simp only [carryOver, hbuild, hrestore, bind, Except.bind]
    rfl
  · intro hwaits a ha
    rw [hanchored _ midnight.entry_mem hwaits a ha]
    rfl
  · intro hkeeps
    rw [← midnight.book_connectionId, hkept _ hkeeps]
    rfl
  · intro hwaits hkeeps
    rw [hdropped _ midnight.entry_mem hwaits hkeeps]
    rfl

theorem resumes_carryOver (h : midnight.Carries) :
    ∃ part, midnight.carryOver = .ok part ∧ Resumes midnight.before midnight.book part := by
  have hreplayed := midnight.replayed_book
  obtain ⟨hwrites, hcases⟩ := h
  obtain ⟨part, hpart, hanchored, hkept, hfresh⟩ := midnight.carryOver_of_writes hwrites
  refine ⟨part, hpart, ?_⟩
  rcases hcases with ⟨hstate, hauthority, hbids, hasks⟩ | ⟨hstate, hwaits⟩ |
    ⟨hstate, hanchor, hpending⟩
  · rw [hkept (midnight.keeps_iff.mpr ⟨hstate, hauthority, hbids, hasks⟩)]
    have hanchor : midnight.book.anchorLastUpdateId = none := by
      by_contra hanchor
      have hreceived := mt hreplayed.anchored.mpr hanchor
      exact (hwrites _ midnight.entry_mem ⟨hanchor, hreceived, hbids, hasks⟩).1 hstate
    refine ⟨rfl, by simp [L2Day.keptBook, hstate], rfl, hanchor,
      hreplayed.anchored.mp hanchor, sameLevels_checkpoint hreplayed.bids,
      sameLevels_checkpoint hreplayed.asks, ⟨[], ?_, by simp⟩, by simp [L2Day.keptBook]⟩
    exact hreplayed.settled hstate
  · obtain ⟨checkpoint, hok, hresumes⟩ :=
      resumes_anchored hreplayed midnight.ordered hwaits hstate
    rw [hanchored hwaits checkpoint hok]
    exact hresumes
  · have hkeeps : ¬ L2Day.Keeps midnight.replay.finalBook midnight.book :=
      fun hkeeps => hstate hkeeps.2.1
    rw [hfresh (fun hwaits => hwaits.1 hanchor) hkeeps]
    obtain ⟨hprevious, hbids, hasks⟩ := hreplayed.empty hstate hanchor
    refine ⟨midnight.book_connectionId, by simp [fresh, hstate], hprevious, hanchor,
      hreplayed.anchored.mp hanchor, by rw [hbids]; exact fun _ => rfl,
      by rw [hasks]; exact fun _ => rfl, ⟨midnight.book.pending, ?_, hpending⟩, by simp [fresh]⟩
    exact (List.append_nil _).symm

/-! ### What tells an uncarried book apart -/

theorem fresh_onSnapshot (snapshot : DepthSnapshot) :
    midnight.fresh.onSnapshot snapshot = .ok (midnight.fresh.anchorAt snapshot, none) :=
  tryBridge_waiting _ rfl rfl (by simp [anchorAt, fresh])

variable {midnight} {part : ConnectionBook} {bound : Int}

theorem bridges_of_anchor {book : ConnectionBook} {anchor receivedNs : Int} {diff : DepthDiff}
    (hnew : diff.identity ∉ book.seenDiffs) (hstate : book.state ≠ .valid)
    (hanchor : book.anchorLastUpdateId = some anchor)
    (hreceived : book.anchorReceivedNs = some receivedNs)
    (hordered : (book.pending ++ [diff]).Pairwise fun a b => a.receiveSeq ≤ b.receiveSeq)
    (hpending : ∀ earlier ∈ book.pending, earlier.finalUpdateId < anchor)
    (hfirst : diff.firstUpdateId ≤ anchor) (hfinal : anchor ≤ diff.finalUpdateId) :
    ∃ bridged change, book.onDiff diff = .ok (bridged, some change) ∧ change.state = .valid := by
  rw [onDiff_tries hnew hstate]
  · exact @tryBridge_last ((book.remember diff).buffer diff) _ _ _ _ hanchor hreceived rfl hordered
      hpending hfirst hfinal
  · intro other hother
    obtain rfl : anchor = other := Option.some.inj (hanchor.symm.trans hother)
    simp [DepthDiff.overlaps, hfirst, hfinal]

theorem Follows.sublist {later : List DepthRow} (h : midnight.Follows later)
    (after : List DepthRow)
    (hsub : after.Sublist later) : midnight.Follows after :=
  ⟨h.1.sublist (hsub.append_left _), fun row hm => h.2 row (hsub.subset hm)⟩

theorem follows_probe {lastUpdateId firstUpdateId finalUpdateId receiveSeq : Int}
    (hsnapshots : ∀ snapshot, .snapshot snapshot ∈ midnight.before →
      snapshot.lastUpdateId ≤ lastUpdateId)
    (hdiffs : ∀ diff, .diff diff ∈ midnight.before →
      diff.finalUpdateId < finalUpdateId ∧ diff.receiveSeq < receiveSeq) :
    midnight.Follows [.snapshot (midnight.snapshotAt lastUpdateId),
      .diff (midnight.diffAt firstUpdateId finalUpdateId receiveSeq)] := by
  refine ⟨List.pairwise_append.mpr ⟨midnight.ordered, by simp [DepthRow.InOrder], ?_⟩, ?_⟩
  · intro row hrow later hlater
    rcases List.mem_cons.mp hlater with rfl | hlater
    · cases row with
      | diff diff => trivial
      | snapshot snapshot => exact hsnapshots snapshot hrow
    · cases List.mem_singleton.mp hlater
      cases row with
      | diff diff => exact ⟨(hdiffs diff hrow).2, (hdiffs diff hrow).1⟩
      | snapshot snapshot => trivial
  · simp [DepthRow.connectionId, DepthRow.receivedNs, snapshotAt, diffAt]

theorem probe_new {firstUpdateId finalUpdateId receiveSeq : Int}
    (hdiffs : ∀ diff, .diff diff ∈ midnight.before →
      diff.finalUpdateId < finalUpdateId ∧ diff.receiveSeq < receiveSeq) :
    (midnight.diffAt firstUpdateId finalUpdateId receiveSeq).identity ∉
      midnight.book.seenDiffs := by
  intro hm
  obtain ⟨diff, hdiff, hid⟩ := midnight.replayed_book.seen _ hm
  have hfinal : diff.finalUpdateId = finalUpdateId := congrArg (fun i => i.2.1) hid
  have := (hdiffs diff hdiff).1
  omega

/-- A valid book that is not kept: a snapshot and a diff make only the fresh book valid. -/
theorem not_agree_valid (hstate : midnight.book.state = .valid) :
    ∃ after, midnight.Follows after ∧ ¬ Agree midnight.book midnight.fresh after := by
  obtain ⟨bound, hdiffs, hsnapshots⟩ := exists_bound midnight.before
  refine ⟨_, @follows_probe _ _ bound _ _ hsnapshots hdiffs, fun hagree => ?_⟩
  -- The valid book takes the anchor and stays as it is.
  have hwhole : midnight.book.onSnapshot (midnight.snapshotAt bound) =
      .ok ({ midnight.book.anchorAt (midnight.snapshotAt bound) with pending := [] }, none) :=
    tryBridge_waiting _ rfl rfl (by simp [anchorAt, midnight.replayed_book.settled hstate])
  obtain ⟨-, hagree⟩ := hagree.cons hwhole (midnight.fresh_onSnapshot _)
  obtain ⟨bridged, change, hpart, hvalid⟩ := @bridges_of_anchor
    (midnight.fresh.anchorAt (midnight.snapshotAt bound)) _ _
    (midnight.diffAt bound bound bound) (by simp [anchorAt, fresh])
    (by simp [anchorAt, fresh]) rfl rfl (by simp [anchorAt, fresh]) (by simp [anchorAt, fresh])
    le_rfl le_rfl
  set anchored : ConnectionBook :=
    { midnight.book.anchorAt (midnight.snapshotAt bound) with pending := [] }
  have hnew : (midnight.diffAt bound bound bound).identity ∉ anchored.seenDiffs :=
    probe_new hdiffs
  by_cases hcont : sequenceContinues bound (midnight.diffAt bound bound bound).previousFinalUpdateId
      = true
  · exact not_same_some hvalid (hagree.cons (onDiff_continues hnew hstate rfl hcont) hpart).1
  · exact not_same_some hvalid (hagree.cons (onDiff_breaks hnew hstate rfl hcont) hpart).1

/-- A buffered diff that a snapshot can still reach: the snapshot makes only the whole book valid,
or, when the diff has no id of its own, a later diff makes only the fresh one valid. -/
theorem not_agree_pending (hstate : midnight.book.state ≠ .valid) {diff : DepthDiff}
    (hm : diff ∈ midnight.book.pending)
    (hreach : ∀ snapshot, .snapshot snapshot ∈ midnight.before →
      snapshot.lastUpdateId ≤ diff.finalUpdateId) :
    ∃ after, midnight.Follows after ∧ ¬ Agree midnight.book midnight.fresh after := by
  obtain ⟨bound, hdiffs, -⟩ := exists_bound midnight.before
  have hreplayed := midnight.replayed_book
  have hordered := pending_ordered hreplayed.pending midnight.ordered
  obtain ⟨old, last, hpending⟩ : ∃ old last, midnight.book.pending = old ++ [last] :=
    ⟨_, _, (List.dropLast_append_getLast (List.ne_nil_of_mem hm)).symm⟩
  have hold : ∀ earlier ∈ old, earlier.finalUpdateId < last.finalUpdateId := by
    rw [hpending] at hordered
    intro earlier hearlier
    exact ((List.pairwise_append.mp hordered).2.2 earlier hearlier last (by simp)).2
  have hlast : diff.finalUpdateId ≤ last.finalUpdateId := by
    rw [hpending] at hm
    rcases List.mem_append.mp hm with hm | hm
    · exact (hold diff hm).le
    · rw [List.mem_singleton.mp hm]
  have hbefore : .diff last ∈ midnight.before :=
    mem_past_of_pending hreplayed (by rw [hpending]; simp)
  have hsnapshots : ∀ snapshot, .snapshot snapshot ∈ midnight.before →
      snapshot.lastUpdateId ≤ last.finalUpdateId :=
    fun snapshot hm => (hreach snapshot hm).trans hlast
  have hprobe := @follows_probe _ _ last.finalUpdateId _ _ hsnapshots hdiffs
  have hsorted : midnight.book.pending.Pairwise fun a b => a.receiveSeq ≤ b.receiveSeq :=
    hordered.imp fun h => h.1.le
  by_cases hempty : last.firstUpdateId ≤ last.finalUpdateId
  · refine ⟨_, hprobe.sublist [.snapshot (midnight.snapshotAt last.finalUpdateId)]
      (by simp), fun hagree => ?_⟩
    obtain ⟨bridged, change, hwhole, hvalid⟩ := @tryBridge_last
      (midnight.book.anchorAt (midnight.snapshotAt last.finalUpdateId)) _ _ _ _ rfl rfl hpending
      hsorted hold hempty le_rfl
    exact not_some_same hvalid (hagree.cons hwhole (midnight.fresh_onSnapshot _)).1
  · refine ⟨_, hprobe, fun hagree => ?_⟩
    have horder : orderByReceiveSeq DepthDiff.receiveSeq midnight.book.pending = old ++ last :: [] := by
      rw [orderByReceiveSeq_of_pairwise hsorted, hpending]
    have hstale := tryBridge_stale
      (midnight.book.anchorAt (midnight.snapshotAt last.finalUpdateId)) rfl rfl horder hold le_rfl
      (not_le.mp hempty)
    obtain ⟨-, hagree⟩ := hagree.cons hstale (midnight.fresh_onSnapshot _)
    set stale : ConnectionBook :=
      { midnight.book.anchorAt (midnight.snapshotAt last.finalUpdateId) with
        bids := []
        asks := []
        previousUpdateId := none
        anchorLastUpdateId := none
        anchorReceivedNs := none
        pending := [last] }
    have hnew : (midnight.diffAt last.finalUpdateId bound bound).identity ∉ stale.seenDiffs :=
      probe_new hdiffs
    have hwhole := (onDiff_tries hnew hstate (by simp [stale])).trans (tryBridge_none _ rfl)
    obtain ⟨bridged, change, hpart, hvalid⟩ := @bridges_of_anchor
      (midnight.fresh.anchorAt (midnight.snapshotAt last.finalUpdateId)) _ _
      (midnight.diffAt last.finalUpdateId bound bound) (by simp [anchorAt, fresh])
      (by simp [anchorAt, fresh]) rfl rfl (by simp [anchorAt, fresh]) (by simp [anchorAt, fresh])
      le_rfl (hdiffs last hbefore).1.le
    exact not_same_some hvalid (hagree.cons hwhole hpart).1

/-- An anchor that is not carried over: a diff at the anchor makes only the whole book valid. -/
theorem not_agree_anchored (hstate : midnight.book.state ≠ .valid) {anchor : Int}
    (hanchor : midnight.book.anchorLastUpdateId = some anchor)
    (hpending : ∀ diff ∈ midnight.book.pending, ∃ snapshot, .snapshot snapshot ∈ midnight.before ∧
      diff.finalUpdateId < snapshot.lastUpdateId) :
    ∃ after, midnight.Follows after ∧ ¬ Agree midnight.book midnight.fresh after := by
  obtain ⟨bound, hdiffs, hsnapshots⟩ := exists_bound midnight.before
  have hreplayed := midnight.replayed_book
  obtain ⟨⟨snapshot, hsnapshot, hid⟩, hlast⟩ := hreplayed.anchor_last anchor hanchor
  obtain ⟨receivedNs, hreceived⟩ := Option.ne_none_iff_exists'.mp
    (mt hreplayed.anchored.mpr (by rw [hanchor]; simp))
  refine ⟨_, (@follows_probe _ _ anchor _ _ hsnapshots hdiffs).sublist
    [.diff (midnight.diffAt anchor bound bound)] (by simp), fun hagree => ?_⟩
  obtain ⟨bridged, change, hwhole, hvalid⟩ := @bridges_of_anchor midnight.book _ _
    (midnight.diffAt anchor bound bound) (probe_new hdiffs) hstate hanchor hreceived
    (by
      refine List.pairwise_append.mpr ⟨?_, by simp, fun earlier hm later hlater => ?_⟩
      · exact (pending_ordered hreplayed.pending midnight.ordered).imp fun h => h.1.le
      · rw [List.mem_singleton.mp hlater]
        exact (hdiffs earlier (mem_past_of_pending hreplayed hm)).2.le)
    (fun earlier hm => by
      obtain ⟨snapshot, hsnapshot, hlt⟩ := hpending earlier hm
      exact hlt.trans_le (hlast snapshot hsnapshot))
    le_rfl (hid ▸ hsnapshots snapshot hsnapshot)
  have hpart := (@onDiff_tries midnight.fresh (midnight.diffAt anchor bound bound)
    (by simp [fresh]) (by simp [fresh]) (by simp [fresh])).trans (tryBridge_none _ rfl)
  exact not_some_same hvalid (hagree.cons hwhole hpart).1

variable (midnight)

/-- A day that is split at midnight recovers as if it were not, exactly when the checkpoint keeps
all of the book that rows after midnight can reach. -/
theorem splitAgrees_iff : midnight.SplitAgrees ↔ midnight.Carries := by
  constructor
  · intro ⟨part, hpart, hagree⟩
    have hwrites := midnight.writes_of_carryOver hpart
    obtain ⟨part', hpart', -, -, hfresh⟩ := midnight.carryOver_of_writes hwrites
    obtain rfl : part = part' := Except.ok.inj (hpart.symm.trans hpart')
    -- The fresh book can be told apart in each of the other cases.
    have hsplit : ¬ midnight.book.WaitsAnchored →
        ¬ L2Day.Keeps midnight.replay.finalBook midnight.book →
        ¬ ∃ after, midnight.Follows after ∧ ¬ Agree midnight.book midnight.fresh after := by
      intro hwaits hkeeps ⟨after, hafter, hnot⟩
      exact hnot (hfresh hwaits hkeeps ▸ hagree after hafter)
    refine ⟨hwrites, ?_⟩
    by_cases hstate : midnight.book.state = .valid
    · left
      refine ⟨hstate, ?_⟩
      by_contra hnot
      refine hsplit (fun hwaits => (hwrites _ midnight.entry_mem hwaits).1 hstate) ?_
        (not_agree_valid hstate)
      exact fun hkeeps => hnot (midnight.keeps_iff.mp hkeeps).2
    · right
      by_cases hwaits : midnight.book.WaitsAnchored
      · exact .inl ⟨hstate, hwaits⟩
      · have hfresh := hsplit hwaits fun hkeeps => hstate hkeeps.2.1
        have hpending : ∀ diff ∈ midnight.book.pending, ∃ snapshot,
            .snapshot snapshot ∈ midnight.before ∧ diff.finalUpdateId < snapshot.lastUpdateId := by
          intro diff hm
          by_contra hnot
          refine hfresh (not_agree_pending hstate hm fun snapshot hsnapshot => ?_)
          exact not_lt.mp fun hlt => hnot ⟨snapshot, hsnapshot, hlt⟩
        refine .inr ⟨hstate, ?_, hpending⟩
        by_contra hanchor
        obtain ⟨anchor, hanchor⟩ := Option.ne_none_iff_exists'.mp hanchor
        exact hfresh (not_agree_anchored hstate hanchor hpending)
  · intro h
    obtain ⟨part, hpart, hresumes⟩ := midnight.resumes_carryOver h
    exact ⟨part, hpart, fun after hafter =>
      agree_of_resumes midnight.replayed_book hresumes hafter.1⟩

end Midnight

section Buffered

/-- A day with one symbol and no gap. -/
def quietDay (utcDate : Int) (rows : List DepthRow) : L2Day where
  collectorId := "c1"
  utcDate
  symbol := "BTCUSDT"
  marker := none
  previousMarker := none
  previousCheckpoint := none
  ledger := []
  rows

def lateDiff : DepthDiff where
  connectionId := "a"
  receiveSeq := 1
  receivedNs := dayEndNs 0 - 1
  firstUpdateId := 1
  finalUpdateId := 10
  previousFinalUpdateId := 0
  payloadHash := []
  bids := [(⟨"100", isNumber_100⟩, "1")]
  asks := [(⟨"101", isNumber_101⟩, "1")]

def earlySnapshot : DepthSnapshot where
  connectionId := "a"
  receiveSeq := 2
  receivedNs := dayEndNs 0
  lastUpdateId := 5
  bids := [(⟨"100", isNumber_100⟩, "2")]
  asks := [(⟨"101", isNumber_101⟩, "2")]

/-- The diff before midnight, the snapshot that bridges into it after midnight. -/
def bufferedMidnight : Midnight where
  day := quietDay 0 [.diff lateDiff]
  next := quietDay 1 [.snapshot earlySnapshot]
  replay := { books := [("a", {
    connectionId := "a", pending := [lateDiff], seenDiffs := [lateDiff.identity] })] }
  connectionId := "a"
  before := [.diff lateDiff]
  book := { connectionId := "a", pending := [lateDiff], seenDiffs := [lateDiff.identity] }
  ordered := by simp
  replayed := rfl
  stored := by simp [DayReplay.book?, KeyedDict.get]
  distinct := by simp [KeyedDict.Distinct]
  named := by simp

/-- The unsplit book is valid at the snapshot, the one that went through the checkpoint is not. -/
theorem not_splitAgrees_bufferedMidnight : ¬ bufferedMidnight.SplitAgrees := by
  intro ⟨part, hpart, hagree⟩
  have hcarry : bufferedMidnight.carryOver = .ok bufferedMidnight.fresh := rfl
  obtain rfl : part = bufferedMidnight.fresh := Except.ok.inj (hpart.symm.trans hcarry)
  have hfollows : bufferedMidnight.Follows [.snapshot earlySnapshot] := by
    refine ⟨by simp [bufferedMidnight, DepthRow.InOrder], ?_⟩
    intro row hrow
    rw [List.mem_singleton.mp hrow]
    exact ⟨rfl, le_rfl⟩
  obtain ⟨bridged, change, hwhole, hvalid⟩ : ∃ bridged change,
      bufferedMidnight.book.onRow (.snapshot earlySnapshot) = .ok (bridged, some change) ∧
        change.state = .valid := ⟨_, _, rfl, rfl⟩
  exact not_some_same hvalid ((hagree _ hfollows).cons hwhole
    (bufferedMidnight.fresh_onSnapshot earlySnapshot)).1

end Buffered

end MiryFormal
