import MiryFormal.Pipeline.ConnectionBook
import MiryFormal.Shared.Runs
import Mathlib.Data.List.Chain

/-!
# What a valid book contains

A run of `on_diff`, `on_snapshot` and `invalidate` from a fresh book, together with the
rows it has received. A valid book is one received snapshot with a chain of received diffs
applied to it, read as the last quantity written at each price.
-/

namespace MiryFormal

set_option autoImplicit false

open SnapshotBridgeTracker

/-! ## The levels as a log of writes -/

/-- The write a diff level makes; a zero quantity removes the level. -/
def levelWrite (level : DecimalText × String) : DecimalText × Option String :=
  (level.1, if isZero level.2 then none else some level.2)

/-- The quantity that the last of `levels` at this price leaves. -/
def quantityAt (key : Decimal) (levels : Levels) : Option String :=
  ((levels.reverse.find? fun level => price level.1 = key).map fun level =>
    if isZero level.2 then none else some level.2).join

theorem applyLevels_eq_writes (side levels : Levels) :
    applyLevels side levels = (levels.map levelWrite).foldl (KeyedDict.write price) side := by
  rw [applyLevels, List.foldl_map]
  congr 1
  funext side level
  by_cases hz : isZero level.2 = true
  · simp [levelWrite, KeyedDict.write, hz]
  · simp [levelWrite, KeyedDict.write, hz]

theorem applyLevels_append (side first second : Levels) :
    applyLevels side (first ++ second) = applyLevels (applyLevels side first) second :=
  List.foldl_append

/-- A snapshot's side holds its non-zero levels. -/
theorem bookSide_eq_applyLevels (levels : Levels) :
    bookSide levels = applyLevels [] (levels.filter fun level => !isZero level.2) := by
  rw [bookSide, applyLevels, List.foldl_filter]
  congr 1
  funext side level
  cases isZero level.2 <;> rfl

theorem foldl_applyLevels (side : Levels) (diffs : List DepthDiff) (levels : DepthDiff → Levels) :
    diffs.foldl (fun side diff => applyLevels side (levels diff)) side =
      applyLevels side (diffs.flatMap levels) := by
  induction diffs generalizing side with
  | nil => rfl
  | cons diff diffs ih => rw [List.foldl_cons, ih, List.flatMap_cons, applyLevels_append]

theorem get_applyLevels_nil (key : Decimal) (levels : Levels) :
    KeyedDict.get price key (applyLevels [] levels) = quantityAt key levels := by
  rw [applyLevels_eq_writes, KeyedDict.get_foldl_write, KeyedDict.lastWrite, ← List.map_reverse,
    List.find?_map]
  have hkey : ((fun entry : DecimalText × Option String => decide (price entry.1 = key)) ∘
      levelWrite) = fun level => decide (price level.1 = key) := rfl
  rw [hkey, quantityAt]
  cases levels.reverse.find? fun level => price level.1 = key <;> rfl

/-! ## Replays of one book -/

inductive BookCall where
  | diff (diff : DepthDiff)
  | snapshot (snapshot : DepthSnapshot)
  | invalidate
  deriving DecidableEq

/-- A book and the rows it was given. -/
structure BookReplay where
  book : ConnectionBook
  snapshots : List DepthSnapshot := []
  diffs : List DepthDiff := []
  deriving DecidableEq

/-- `diffs` lead from the snapshot to the update id `last`. -/
structure Bridges (snapshot : DepthSnapshot) (diffs : List DepthDiff) (last : Int) : Prop where
  overlap : ∃ first ∈ diffs.head?, first.firstUpdateId ≤ snapshot.lastUpdateId ∧
    snapshot.lastUpdateId ≤ first.finalUpdateId
  continues : diffs.IsChain fun a b => b.previousFinalUpdateId = a.finalUpdateId
  ordered : diffs.Pairwise fun a b => a.receiveSeq ≤ b.receiveSeq
  last_eq : diffs.getLast?.map DepthDiff.finalUpdateId = some last

theorem bridges_of_followChain {snapshot : DepthSnapshot} {first : DepthDiff}
    {rest : List DepthDiff} {last : Int}
    (hlow : first.firstUpdateId ≤ snapshot.lastUpdateId)
    (hhigh : snapshot.lastUpdateId ≤ first.finalUpdateId)
    (hord : (first :: rest).Pairwise fun a b => a.receiveSeq ≤ b.receiveSeq)
    (hchain : followChain first.finalUpdateId (rest.map DepthDiff.span) = .ok last) :
    Bridges snapshot (first :: rest) last := by
  suffices h : (first :: rest).IsChain (fun a b => b.previousFinalUpdateId = a.finalUpdateId) ∧
      (first :: rest).getLast?.map DepthDiff.finalUpdateId = some last from
    ⟨⟨first, rfl, hlow, hhigh⟩, h.1, hord, h.2⟩
  clear hlow hhigh hord
  induction rest generalizing first with
  | nil =>
    cases hchain
    exact ⟨.singleton first, rfl⟩
  | cons next rest ih =>
    simp only [List.map_cons, followChain] at hchain
    split at hchain
    · rename_i hc
      obtain ⟨htail, hlast⟩ := ih hchain
      have hnext : next.previousFinalUpdateId = first.finalUpdateId := by
        simpa [sequenceContinues, DepthDiff.span] using hc
      exact ⟨.cons_cons hnext htail, by simpa using hlast⟩
    · cases hchain

theorem Bridges.snoc {snapshot : DepthSnapshot} {diffs : List DepthDiff} {diff : DepthDiff}
    {last : Int} (h : Bridges snapshot diffs last) (hcont : diff.previousFinalUpdateId = last)
    (hord : ∀ earlier ∈ diffs, earlier.finalUpdateId = last →
      earlier.receiveSeq ≤ diff.receiveSeq) :
    Bridges snapshot (diffs ++ [diff]) diff.finalUpdateId := by
  obtain ⟨⟨first, hfirst, hover⟩, hchain, hordered, hlast⟩ := h
  obtain ⟨before, tail, rfl⟩ : ∃ before tail, diffs = before ++ [tail] := by
    rcases List.eq_nil_or_concat diffs with rfl | h
    · simp at hfirst
    · simpa using h
  have htail : tail.finalUpdateId = last := by simpa using hlast
  refine ⟨⟨first, ?_, hover⟩, ?_, ?_, by simp⟩
  · rw [List.head?_append_of_ne_nil _ (by simp)]
    exact hfirst
  · refine List.isChain_append.mpr ⟨hchain, .singleton diff, ?_⟩
    intro a ha b hb
    obtain rfl : tail = a := by simpa using ha
    obtain rfl : diff = b := by simpa using hb
    rw [hcont, htail]
  · refine List.pairwise_append.mpr ⟨hordered, List.pairwise_singleton _ _, ?_⟩
    intro a ha b hb
    obtain rfl : b = diff := by simpa using hb
    have hle : a.receiveSeq ≤ tail.receiveSeq := by
      rcases List.mem_append.mp ha with hm | hm
      · exact (List.pairwise_append.mp hordered).2.2 a hm tail (by simp)
      · rw [List.mem_singleton.mp hm]
    exact hle.trans (hord tail (by simp) htail)

namespace BookReplay

def fresh (connectionId : String) : BookReplay where
  book := { connectionId }

def call (replay : BookReplay) : BookCall → Except String BookReplay
  | .diff diff => do
      let (book, _) ← replay.book.onDiff diff
      return { replay with book, diffs := replay.diffs ++ [diff] }
  | .snapshot snapshot => do
      let (book, _) ← replay.book.onSnapshot snapshot
      return { replay with book, snapshots := replay.snapshots ++ [snapshot] }
  | .invalidate => return { replay with book := replay.book.invalidate }

/-- The book is a received snapshot with a chain of received diffs applied to it. -/
def Reconstructed (replay : BookReplay) : Prop :=
  ∃ snapshot ∈ replay.snapshots, ∃ diffs last, (∀ diff ∈ diffs, diff ∈ replay.diffs) ∧
    Bridges snapshot diffs last ∧
    replay.book.previousUpdateId = some last ∧
    (∀ key, KeyedDict.get price key replay.book.bids =
      quantityAt key (snapshot.bids.filter (fun level => !isZero level.2) ++
        diffs.flatMap DepthDiff.bids)) ∧
    (∀ key, KeyedDict.get price key replay.book.asks =
      quantityAt key (snapshot.asks.filter (fun level => !isZero level.2) ++
        diffs.flatMap DepthDiff.asks)) ∧
    replay.book.anchorLastUpdateId = none ∧ replay.book.anchorReceivedNs = none ∧
    replay.book.pending = []

/-- The calls that keep a valid book consistent: it is given no snapshot, and it applies no
diff that was received before the one it continues. -/
def CallInOrder (replay : BookReplay) : BookCall → Prop
  | .diff diff => replay.book.state = .valid → diff.identity ∉ replay.book.seenDiffs →
      replay.book.previousUpdateId = some diff.previousFinalUpdateId →
      ∀ earlier ∈ replay.diffs, earlier.finalUpdateId = diff.previousFinalUpdateId →
        earlier.receiveSeq ≤ diff.receiveSeq
  | .snapshot _ => replay.book.state ≠ .valid
  | .invalidate => True

instance (replay : BookReplay) : ∀ call, Decidable (replay.CallInOrder call)
  | .diff _ => inferInstanceAs (Decidable (_ → _ → _ → ∀ _ ∈ _, _ → _))
  | .snapshot _ => inferInstanceAs (Decidable (_ ≠ _))
  | .invalidate => inferInstanceAs (Decidable True)

/-- The book's anchor and levels are those of a received snapshot. -/
def AnchoredAt (replay : BookReplay) (anchor : Int) : Prop :=
  ∃ snapshot ∈ replay.snapshots, snapshot.lastUpdateId = anchor ∧
    replay.book.anchorReceivedNs = some snapshot.receivedNs ∧
    replay.book.bids = bookSide snapshot.bids ∧ replay.book.asks = bookSide snapshot.asks

/-- `Reconstructed`, with the levels as the code writes them. -/
def Built (replay : BookReplay) : Prop :=
  ∃ snapshot ∈ replay.snapshots, ∃ diffs last, (∀ diff ∈ diffs, diff ∈ replay.diffs) ∧
    Bridges snapshot diffs last ∧
    replay.book.previousUpdateId = some last ∧
    replay.book.bids = applyLevels (bookSide snapshot.bids) (diffs.flatMap DepthDiff.bids) ∧
    replay.book.asks = applyLevels (bookSide snapshot.asks) (diffs.flatMap DepthDiff.asks) ∧
    replay.book.anchorLastUpdateId = none ∧ replay.book.anchorReceivedNs = none ∧
    replay.book.pending = []

theorem Built.reconstructed {replay : BookReplay} (h : replay.Built) : replay.Reconstructed := by
  obtain ⟨snapshot, hsnap, diffs, last, hdiffs, hbridges, hprev, hbids, hasks, hrest⟩ := h
  refine ⟨snapshot, hsnap, diffs, last, hdiffs, hbridges, hprev, fun key => ?_, fun key => ?_,
    hrest⟩
  · rw [hbids, bookSide_eq_applyLevels, ← applyLevels_append, get_applyLevels_nil]
  · rw [hasks, bookSide_eq_applyLevels, ← applyLevels_append, get_applyLevels_nil]

structure Sound (replay : BookReplay) : Prop where
  pending_received : ∀ diff ∈ replay.book.pending, diff ∈ replay.diffs
  anchored : ∀ anchor, replay.book.anchorLastUpdateId = some anchor → replay.AnchoredAt anchor
  valid : replay.book.state = .valid → replay.Built

theorem sound_tryBridge (replay : BookReplay) (hstate : replay.book.state ≠ .valid)
    (hpend : ∀ diff ∈ replay.book.pending, diff ∈ replay.diffs)
    (hanchored : ∀ anchor, replay.book.anchorLastUpdateId = some anchor →
      replay.AnchoredAt anchor) :
    ∃ book change, replay.book.tryBridge = .ok (book, change) ∧ Sound { replay with book } := by
  cases hanchor : replay.book.anchorLastUpdateId with
  | none =>
    exact ⟨_, _, ConnectionBook.tryBridge_none _ hanchor, hpend, hanchored,
      fun h => absurd h hstate⟩
  | some anchor =>
    obtain ⟨snapshot, hsnap, rfl, hreceived, hbids, hasks⟩ := hanchored anchor hanchor
    have hperm := orderByReceiveSeq_perm DepthDiff.receiveSeq replay.book.pending
    have hordered := orderByReceiveSeq_pairwise DepthDiff.receiveSeq replay.book.pending
    rcases reaching_cases DepthDiff.finalUpdateId snapshot.lastUpdateId
      (orderByReceiveSeq DepthDiff.receiveSeq replay.book.pending) with
      hall | ⟨old, first, rest, hord, hold, hfirst⟩
    · refine ⟨_, _, ConnectionBook.tryBridge_waiting _ hanchor hreceived
        fun diff hd => hall diff (hperm.mem_iff.mpr hd), by simp, ?_, fun h => absurd h hstate⟩
      intro anchor hsome
      exact hanchored anchor hsome
    · rw [hord] at hordered
      have hfrom : ∀ diff ∈ first :: rest, diff ∈ replay.diffs := fun diff hd =>
        hpend diff (hperm.mem_iff.mp (hord ▸ List.mem_append_right old hd))
      rcases Int.lt_or_le snapshot.lastUpdateId first.firstUpdateId with hpast | hover
      · exact ⟨_, _, ConnectionBook.tryBridge_stale _ hanchor hreceived hord hold hfirst hpast,
          hfrom, by simp, fun h => absurd h hstate⟩
      · cases hchain : followChain first.finalUpdateId (rest.map DepthDiff.span) with
        | ok last =>
          obtain ⟨hbook, hlast⟩ := ConnectionBook.tryBridge_bridged _ hanchor hreceived hord hold
            hfirst hover hchain
          refine ⟨_, _, hbook, by simp, by simp, fun _ => ?_⟩
          refine ⟨snapshot, hsnap, first :: rest, last, hfrom, ?_, hlast, ?_, ?_, rfl, rfl, rfl⟩
          · exact bridges_of_followChain hover hfirst (List.pairwise_append.mp hordered).2.1
              hchain
          · simp only [ConnectionBook.foldl_apply_eq, foldl_applyLevels, hbids]
          · simp only [ConnectionBook.foldl_apply_eq, foldl_applyLevels, hasks]
        | error broken =>
          obtain ⟨before, diff, after, rfl, -, hbook⟩ := ConnectionBook.tryBridge_broken
            _ hanchor hreceived hord hold hfirst hover hchain
          refine ⟨_, _, hbook, ?_, by simp [ConnectionBook.restartAt, ConnectionBook.invalidate],
            by simp [ConnectionBook.restartAt, ConnectionBook.invalidate]⟩
          intro d hd
          obtain rfl : d = diff := by simpa [ConnectionBook.restartAt] using hd
          exact hfrom d (by simp)

theorem sound_fresh (connectionId : String) : Sound (fresh connectionId) :=
  ⟨by simp [fresh], by simp [fresh], by simp [fresh]⟩

theorem Sound.receive {replay : BookReplay} (h : Sound replay) (diff : DepthDiff) :
    Sound { replay with diffs := replay.diffs ++ [diff] } := by
  refine ⟨fun d hd => List.mem_append_left _ (h.pending_received d hd), h.anchored, fun hv => ?_⟩
  obtain ⟨snapshot, hsnap, diffs, last, hdiffs, hrest⟩ := h.valid hv
  exact ⟨snapshot, hsnap, diffs, last, fun d hd => List.mem_append_left _ (hdiffs d hd), hrest⟩

theorem Sound.call_diff {replay : BookReplay} {diff : DepthDiff} (h : Sound replay)
    (hgood : replay.CallInOrder (.diff diff)) :
    ∃ replay', replay.call (.diff diff) = .ok replay' ∧ Sound replay' := by
  suffices hbook : ∃ book change, replay.book.onDiff diff = .ok (book, change) ∧
      Sound { replay with book, diffs := replay.diffs ++ [diff] } by
    obtain ⟨book, change, hcall, hsound⟩ := hbook
    exact ⟨_, by simp only [call, hcall]; rfl, hsound⟩
  by_cases hnew : diff.identity ∈ replay.book.seenDiffs
  · exact ⟨_, _, ConnectionBook.onDiff_seen hnew, h.receive diff⟩
  · by_cases hstate : replay.book.state = .valid
    · obtain ⟨snapshot, hsnap, diffs, last, hdiffs, hbridges, hprev, hbids, hasks, hanchor,
        hreceived, hpend⟩ := h.valid hstate
      by_cases hcont : sequenceContinues last diff.previousFinalUpdateId = true
      · have hid : diff.previousFinalUpdateId = last := by
          simpa [sequenceContinues] using hcont
        have hafter : ∀ earlier ∈ diffs, earlier.finalUpdateId = last →
            earlier.receiveSeq ≤ diff.receiveSeq := fun earlier hm hlast =>
          hgood hstate hnew (hid ▸ hprev) earlier (hdiffs earlier hm) (hlast.trans hid.symm)
        refine ⟨_, _, ConnectionBook.onDiff_continues hnew hstate hprev hcont, ?_, ?_, fun _ => ?_⟩
        · simp [ConnectionBook.apply, ConnectionBook.remember, hpend]
        · simp [ConnectionBook.apply, ConnectionBook.remember, hanchor]
        · refine ⟨snapshot, hsnap, diffs ++ [diff], _, ?_, hbridges.snoc hid hafter, rfl, ?_, ?_,
            hanchor, hreceived, hpend⟩
          · intro d hd
            rcases List.mem_append.mp hd with hd | hd
            · exact List.mem_append_left _ (hdiffs d hd)
            · exact List.mem_append_right _ hd
          · rw [List.flatMap_append, applyLevels_append, ← hbids]
            simp [ConnectionBook.apply, ConnectionBook.remember]
          · rw [List.flatMap_append, applyLevels_append, ← hasks]
            simp [ConnectionBook.apply, ConnectionBook.remember]
      · refine ⟨_, _, ConnectionBook.onDiff_breaks hnew hstate hprev hcont, ?_, ?_, ?_⟩ <;>
          simp [ConnectionBook.restartAt, ConnectionBook.invalidate]
    · -- An unbridged book buffers the diff, and may try to bridge.
      have hpend : ∀ d ∈ ((replay.book.remember diff).buffer diff).pending,
          d ∈ replay.diffs ++ [diff] := by
        intro d hd
        rcases List.mem_append.mp hd with hd | hd
        · exact List.mem_append_left _ (h.pending_received d hd)
        · exact List.mem_append_right _ hd
      by_cases hmiss : ∃ anchor, replay.book.anchorLastUpdateId = some anchor ∧
          ¬ diff.overlaps anchor = true
      · obtain ⟨anchor, hanchor, hmiss⟩ := hmiss
        exact ⟨_, _, ConnectionBook.onDiff_buffers hnew hstate hanchor hmiss, hpend, h.anchored,
          fun hv => absurd hv hstate⟩
      · rw [ConnectionBook.onDiff_tries hnew hstate fun anchor hanchor =>
          not_not.mp fun hmiss' => hmiss ⟨anchor, hanchor, hmiss'⟩]
        exact sound_tryBridge { replay with
          book := (replay.book.remember diff).buffer diff
          diffs := replay.diffs ++ [diff] } hstate hpend h.anchored

theorem Sound.call {replay : BookReplay} {call : BookCall} (h : Sound replay)
    (hgood : replay.CallInOrder call) : ∃ replay', replay.call call = .ok replay' ∧ Sound replay' := by
  cases call with
  | diff diff => exact h.call_diff hgood
  | snapshot snapshot =>
    obtain ⟨book, change, hbook, hsound⟩ := sound_tryBridge
      { replay with
        book := replay.book.anchorAt snapshot
        snapshots := replay.snapshots ++ [snapshot] } hgood h.pending_received (by
          intro anchor hanchor
          exact ⟨snapshot, by simp, by simpa [ConnectionBook.anchorAt] using hanchor, rfl, rfl,
            rfl⟩)
    exact ⟨_, by simp only [BookReplay.call, ConnectionBook.onSnapshot, hbook]; rfl, hsound⟩
  | invalidate =>
    exact ⟨_, rfl, by simp [ConnectionBook.invalidate], by simp [ConnectionBook.invalidate],
      by simp [ConnectionBook.invalidate]⟩

/-- A book that is valid after calls in order is reconstructed from what it received. -/
theorem reconstructed_of_callsInOrder (connectionId : String) {calls : List BookCall}
    (hcalls : StepsMeet call CallInOrder (fresh connectionId) calls) :
    ∃ replay, calls.foldlM call (fresh connectionId) = .ok replay ∧
      (replay.book.state = .valid → replay.Reconstructed) := by
  obtain ⟨replay, hrun, hsound⟩ := hcalls.returns (fun replay _ => Sound replay)
    (fun h hgood => h.call hgood) (sound_fresh connectionId)
  exact ⟨replay, hrun, fun hv => (hsound.valid hv).reconstructed⟩

/-- A diff that clears a bid, and the snapshot it bridges. -/
def bridgingCalls : List BookCall :=
  [.diff {
      connectionId := "c", receiveSeq := 1, receivedNs := 1
      firstUpdateId := 1, finalUpdateId := 10, previousFinalUpdateId := 0, payloadHash := []
      bids := [(⟨"100", by decide⟩, "0"), (⟨"99.5", by decide⟩, "2")], asks := [] },
    .snapshot {
      connectionId := "c", receiveSeq := 2, receivedNs := 2, lastUpdateId := 5
      bids := [(⟨"100.0", by decide⟩, "1")], asks := [(⟨"101", by decide⟩, "3")] }]

theorem reconstructed_bridgingCalls :
    ∃ replay, bridgingCalls.foldlM call (fresh "c") = .ok replay ∧
      (replay.book.state = .valid → replay.Reconstructed) :=
  reconstructed_of_callsInOrder "c" (by decide)

def snapshotWhileValid : List BookCall :=
  bridgingCalls ++ [.snapshot {
    connectionId := "c", receiveSeq := 3, receivedNs := 3, lastUpdateId := 12
    bids := [(⟨"98", by decide⟩, "7")], asks := [] }]

/-- A snapshot given to the valid book replaces its levels and waits for a bridge, while the
book stays valid. -/
theorem not_reconstructed_snapshotWhileValid :
    ∃ replay, snapshotWhileValid.foldlM call (fresh "c") = .ok replay ∧
      replay.book.state = .valid ∧ ¬ replay.Reconstructed := by
  obtain ⟨replay, hrun⟩ : ∃ replay, snapshotWhileValid.foldlM call (fresh "c") = .ok replay :=
    ⟨_, rfl⟩
  refine ⟨replay, hrun, ?_⟩
  cases hrun
  refine ⟨by decide, ?_⟩
  rintro ⟨_, _, _, _, _, _, _, _, _, hanchor, _⟩
  revert hanchor
  decide

end BookReplay

end MiryFormal
