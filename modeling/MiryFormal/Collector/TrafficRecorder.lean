import MiryFormal.Collector.TrafficState
import MiryFormal.Shared.Runs

/-!
# Runs of the traffic recorder

A completed block is 60 consecutive minutes. Whether the next start can read it depends on the
minutes alone: `finish_minute` takes a minute that it has already counted, and then counts it into
the block after, which begins before the last one has ended.
-/

namespace MiryFormal

set_option autoImplicit false

/-- A `Counter`. -/
abbrev MinuteCounter := List (String × Int)

structure PublicTrafficRecorder where
  startedMinute : Int
  lastMinute : Option Int := none
  minuteSymbols : List (Int × MinuteCounter) := []
  minuteRoutes : List (Int × MinuteCounter) := []
  blockStart : Option Int := none
  blockMinutes : Nat := 0
  blockPeaks : MinuteCounter := []
  blocks : List MessageRateBlock

/-- `counter[key] += 1` -/
def MinuteCounter.add (counter : MinuteCounter) (key : String) : MinuteCounter :=
  KeyedDict.set id key ((KeyedDict.get id key counter).getD 0 + 1) counter

/-- `counters.setdefault(minute, Counter())[key] += 1` -/
def countMinute (counters : List (Int × MinuteCounter)) (minute : Int) (key : String) :
    List (Int × MinuteCounter) :=
  KeyedDict.set id minute (((KeyedDict.get id minute counters).getD []).add key) counters

/-- One round of the loop over `symbol_counts`. -/
def raisePeak (peaks : MinuteCounter) (count : String × Int) : MinuteCounter :=
  KeyedDict.set id count.1 (max ((KeyedDict.get id count.1 peaks).getD 0) count.2) peaks

namespace PublicTrafficRecorder

/-- `__init__` -/
def start (text : SymbolText) (file : Option Json) (minute : Int) : PublicTrafficRecorder where
  startedMinute := minute
  blocks := loadBlocks text file

variable (recorder : PublicTrafficRecorder) (minute : Int)

def record (route symbol : String) : PublicTrafficRecorder :=
  { recorder with
    minuteSymbols := countMinute recorder.minuteSymbols minute symbol
    minuteRoutes := countMinute recorder.minuteRoutes minute route }

/-- `self._minute_symbols.get(minute)` -/
def symbolCounts : MinuteCounter := (KeyedDict.get id minute recorder.minuteSymbols).getD []

def resetBlock : PublicTrafficRecorder :=
  { recorder with blockStart := none, blockMinutes := 0, blockPeaks := [] }

/-- `pop` of the minute, and `_discard_older_minutes`. -/
def discardMinutes : PublicTrafficRecorder :=
  { recorder with
    minuteSymbols := recorder.minuteSymbols.filter fun entry => minute < entry.1
    minuteRoutes := recorder.minuteRoutes.filter fun entry => minute < entry.1 }

/-- A minute that does not follow the last one begins a new block. -/
def resumeBlock : PublicTrafficRecorder :=
  if recorder.lastMinute ≠ none ∧ recorder.lastMinute ≠ some (minute - 1) then recorder.resetBlock
  else recorder

def joinMinute (counts : MinuteCounter) : PublicTrafficRecorder :=
  { recorder with
    lastMinute := some minute
    blockStart := some (recorder.blockStart.getD minute)
    blockMinutes := recorder.blockMinutes + 1
    blockPeaks := counts.foldl raisePeak recorder.blockPeaks }

def closeBlock : PublicTrafficRecorder :=
  resetBlock { recorder with
    blocks := lastBlocks (recorder.blocks ++ [{
      startMinute := recorder.blockStart.getD minute
      endMinute := minute
      rates := recorder.blockPeaks.insertionSort fun a b => toLex a ≤ toLex b }]) }

/-- `finish_minute`; the second part is what it returns. -/
def finishMinute : PublicTrafficRecorder × Bool :=
  let counts := recorder.symbolCounts minute
  let recorder := recorder.discardMinutes minute
  if minute ≤ recorder.startedMinute then (recorder, false)
  else
    let recorder := (recorder.resumeBlock minute).joinMinute minute counts
    if recorder.blockMinutes < 60 then (recorder, false)
    else (recorder.closeBlock minute, true)

end PublicTrafficRecorder

/-- The recorder and its file. -/
structure TrafficState where
  recorder : PublicTrafficRecorder
  file : Option Json

inductive TrafficEvent where
  | record (minute : Int) (route symbol : String)
  | finishMinute (minute : Int)
  | persist
  | restart (minute : Int)

def TrafficState.step (text : SymbolText) (state : TrafficState) : TrafficEvent → TrafficState
  | .record minute route symbol =>
      { state with recorder := state.recorder.record minute route symbol }
  | .finishMinute minute => { state with recorder := (state.recorder.finishMinute minute).1 }
  | .persist => { state with file := some (statePayload state.recorder.blocks) }
  | .restart minute => { state with recorder := .start text state.file minute }

/-! ## Counters -/

def Positive (counter : MinuteCounter) : Prop := ∀ count ∈ counter, 0 < count.2

theorem Positive.getD {counter : MinuteCounter} (h : Positive counter) (key : String) :
    0 ≤ (KeyedDict.get id key counter).getD 0 := by
  cases hget : KeyedDict.get id key counter with
  | none => exact le_rfl
  | some count =>
    obtain ⟨stored, hm, -⟩ := KeyedDict.mem_of_get hget
    exact (h _ hm).le

theorem Positive.set {counter : MinuteCounter} (h : Positive counter) (key : String) {count : Int}
    (hcount : 0 < count) : Positive (KeyedDict.set id key count counter) := by
  intro entry hm
  cases KeyedDict.mem_set hm with
  | inl hold => exact h entry hold
  | inr hnew => exact hnew.2 ▸ hcount

theorem Positive.add {counter : MinuteCounter} (h : Positive counter) (key : String) :
    Positive (counter.add key) := by
  apply h.set
  have hold := h.getD key
  omega

variable {peaks counts : MinuteCounter}

theorem raisePeaks_positive (hpeaks : Positive peaks) (hcounts : Positive counts) :
    Positive (counts.foldl raisePeak peaks) := by
  induction counts generalizing peaks with
  | nil => exact hpeaks
  | cons count counts ih =>
    obtain ⟨hfirst, hrest⟩ := List.forall_mem_cons.mp hcounts
    apply ih _ hrest
    exact hpeaks.set _ (lt_max_of_lt_right hfirst)

theorem raisePeaks_distinct (h : KeyedDict.Distinct id peaks) :
    KeyedDict.Distinct id (counts.foldl raisePeak peaks) := by
  induction counts generalizing peaks with
  | nil => exact h
  | cons count counts ih => exact ih (KeyedDict.distinct_set h _ _)

/-- The symbols of a block are those that its minutes have counted. -/
theorem forall_raisePeaks {P : String → Prop} :
    (∀ peak ∈ counts.foldl raisePeak peaks, P peak.1) ↔
      (∀ peak ∈ peaks, P peak.1) ∧ ∀ count ∈ counts, P count.1 := by
  induction counts generalizing peaks with
  | nil => simp
  | cons count counts ih =>
    have hset : (∀ peak ∈ raisePeak peaks count, P peak.1) ↔ P count.1 ∧ ∀ peak ∈ peaks, P peak.1 :=
      KeyedDict.forall_keys_set
    rw [List.foldl_cons, ih, hset, List.forall_mem_cons]
    exact ⟨fun h => ⟨h.1.2, h.1.1, h.2⟩, fun h => ⟨⟨h.2.1, h.1⟩, h.2.2⟩⟩

/-! ## The minutes of a block -/

namespace PublicTrafficRecorder
variable {recorder : PublicTrafficRecorder} {minute : Int}

/-- The blocks are complete, and the open block is the run of minutes up to the last one. -/
structure Assembled (recorder : PublicTrafficRecorder) : Prop where
  complete : ∀ block ∈ recorder.blocks, block.Complete
  atMost : recorder.blocks.length ≤ 24
  minutes : recorder.blockMinutes < 60
  counting : recorder.blockStart = none ∧ recorder.blockMinutes = 0 ∨
    ∃ last, recorder.lastMinute = some last ∧
      recorder.blockStart = some (last + 1 - recorder.blockMinutes)
  distinct : KeyedDict.Distinct id recorder.blockPeaks
  peaks : Positive recorder.blockPeaks
  counts : ∀ entry ∈ recorder.minuteSymbols, Positive entry.2

theorem assembled_start (text : SymbolText) (file : Option Json) (minute : Int) :
    (start text file minute).Assembled where
  complete block hm := ((loadBlocks_spec text file).2.2 block hm).1
  atMost := (loadBlocks_spec text file).2.1
  minutes := Nat.zero_lt_succ 59
  counting := .inl ⟨rfl, rfl⟩
  distinct := List.nodup_nil
  peaks _ hm := absurd hm List.not_mem_nil
  counts _ hm := absurd hm List.not_mem_nil

namespace Assembled

theorem symbolCounts (h : recorder.Assembled) (minute : Int) :
    Positive (recorder.symbolCounts minute) := by
  unfold PublicTrafficRecorder.symbolCounts
  cases hget : KeyedDict.get id minute recorder.minuteSymbols with
  | none => exact fun _ hm => absurd hm List.not_mem_nil
  | some counter =>
    obtain ⟨key, hm, -⟩ := KeyedDict.mem_of_get hget
    exact h.counts _ hm

theorem record (h : recorder.Assembled) (route symbol : String) :
    (recorder.record minute route symbol).Assembled :=
  { h with
    counts := by
      intro entry hm
      cases KeyedDict.mem_set hm with
      | inl hold => exact h.counts entry hold
      | inr hnew =>
        rw [hnew.2]
        exact (h.symbolCounts minute).add symbol }

theorem discardMinutes (h : recorder.Assembled) : (recorder.discardMinutes minute).Assembled :=
  { h with counts := fun entry hm => h.counts entry (List.mem_of_mem_filter hm) }

theorem resetBlock (h : recorder.Assembled) : recorder.resetBlock.Assembled :=
  { h with
    minutes := Nat.zero_lt_succ 59
    counting := .inl ⟨rfl, rfl⟩
    distinct := List.nodup_nil
    peaks := fun _ hm => absurd hm List.not_mem_nil }

theorem resumeBlock (h : recorder.Assembled) : (recorder.resumeBlock minute).Assembled := by
  unfold PublicTrafficRecorder.resumeBlock
  split
  · exact h.resetBlock
  · exact h

end Assembled

/-- The minute that is counted next follows the open block. -/
theorem blockStart_resumeBlock (h : recorder.Assembled) (minute : Int) :
    (recorder.resumeBlock minute).blockStart.getD minute =
      minute - (recorder.resumeBlock minute).blockMinutes := by
  unfold resumeBlock
  split
  · exact (Int.sub_zero minute).symm
  · rename_i hfollows
    cases h.counting with
    | inl hclosed =>
      rw [hclosed.1, hclosed.2]
      exact (Int.sub_zero minute).symm
    | inr hopen =>
      obtain ⟨last, hlast, hstart⟩ := hopen
      have hminute : last = minute - 1 := by
        by_contra hother
        apply hfollows
        rw [hlast]
        exact ⟨Option.some_ne_none last, fun hsame => hother (Option.some.inj hsame)⟩
      rw [hstart, hminute, Option.getD_some]
      omega

theorem resumeBlock_of_follows (h : recorder.lastMinute = some (minute - 1)) :
    recorder.resumeBlock minute = recorder := by
  unfold resumeBlock
  exact if_neg fun hbreak => hbreak.2 h

theorem blocks_resumeBlock (recorder : PublicTrafficRecorder) (minute : Int) :
    (recorder.resumeBlock minute).blocks = recorder.blocks := by
  unfold resumeBlock
  split <;> rfl

/-- 59 minutes stand before this one only when the last of them was the minute before. -/
theorem blockMinutes_resumeBlock (h : recorder.Assembled) (minute : Int) :
    (recorder.resumeBlock minute).blockMinutes = 59 ↔
      recorder.blockMinutes = 59 ∧ recorder.lastMinute = some (minute - 1) := by
  constructor
  · intro hfull
    unfold resumeBlock at hfull
    split at hfull
    · cases hfull
    · rename_i hfollows
      refine ⟨hfull, ?_⟩
      cases h.counting with
      | inl hclosed =>
        rw [hclosed.2] at hfull
        cases hfull
      | inr hopen =>
        obtain ⟨last, hlast, -⟩ := hopen
        by_contra hother
        apply hfollows
        exact ⟨by rw [hlast]; exact Option.some_ne_none last, hother⟩
  · intro hfull
    rw [resumeBlock_of_follows hfull.2]
    exact hfull.1

/-- The call completes a block: it is the 60th minute in a row. -/
def Completes (recorder : PublicTrafficRecorder) (minute : Int) : Prop :=
  recorder.startedMinute < minute ∧ recorder.blockMinutes = 59 ∧
    recorder.lastMinute = some (minute - 1)

instance : Decidable (recorder.Completes minute) := inferInstanceAs (Decidable (_ ∧ _))

/-- The block that such a call appends. -/
def completedBlock (recorder : PublicTrafficRecorder) (minute : Int) : MessageRateBlock where
  startMinute := minute - 59
  endMinute := minute
  rates := ((recorder.symbolCounts minute).foldl raisePeak recorder.blockPeaks).insertionSort
    fun a b => toLex a ≤ toLex b

theorem completedBlock_complete (h : recorder.Assembled) (minute : Int) :
    (recorder.completedBlock minute).Complete where
  minutes := (Int.sub_add_cancel minute 59).symm
  distinct := by
    have hperm := List.perm_insertionSort (fun a b => toLex a ≤ toLex b)
      ((recorder.symbolCounts minute).foldl raisePeak recorder.blockPeaks)
    exact (hperm.map _).nodup_iff.mpr (raisePeaks_distinct h.distinct)
  positive := by
    intro rate hm
    exact raisePeaks_positive h.peaks (h.symbolCounts minute) rate
      ((List.mem_insertionSort _).mp hm)

theorem completedBlock_ofExchange {text : SymbolText} :
    (recorder.completedBlock minute).OfExchange text ↔
      (∀ peak ∈ recorder.blockPeaks, isExchangeSymbol text peak.1 = true) ∧
        ∀ count ∈ recorder.symbolCounts minute, isExchangeSymbol text count.1 = true := by
  rw [← forall_raisePeaks (P := fun symbol => isExchangeSymbol text symbol = true)]
  unfold MessageRateBlock.OfExchange completedBlock
  simp only [List.mem_insertionSort]

theorem lastBlocks_complete (h : recorder.Assembled) (minute : Int) :
    ∀ block ∈ lastBlocks (recorder.blocks ++ [recorder.completedBlock minute]), block.Complete := by
  intro block hm
  cases List.mem_append.mp ((lastBlocks_sublist _).subset hm) with
  | inl hold => exact h.complete block hold
  | inr hnew =>
    rw [List.mem_singleton.mp hnew]
    exact completedBlock_complete h minute

theorem finishMinute_spec (h : recorder.Assembled) (minute : Int) :
    (recorder.finishMinute minute).1.Assembled ∧ (recorder.finishMinute minute).1.blocks =
      if recorder.Completes minute then
        lastBlocks (recorder.blocks ++ [recorder.completedBlock minute])
      else recorder.blocks := by
  have hdiscarded : (recorder.discardMinutes minute).Assembled := h.discardMinutes
  have hresumed : ((recorder.discardMinutes minute).resumeBlock minute).Assembled :=
    hdiscarded.resumeBlock
  have hstart := blockStart_resumeBlock hdiscarded minute
  have hcounts := h.symbolCounts minute
  unfold finishMinute
  dsimp only
  split
  · rename_i hearly
    refine ⟨hdiscarded, (if_neg fun hcompletes => ?_).symm⟩
    exact absurd hcompletes.1 (not_lt.mpr hearly)
  · rename_i hlate
    split
    · rename_i hshort
      refine ⟨{ hresumed with
        minutes := hshort
        counting := .inr ⟨minute, rfl, ?_⟩
        distinct := raisePeaks_distinct hresumed.distinct
        peaks := raisePeaks_positive hresumed.peaks hcounts }, ?_⟩
      · unfold joinMinute
        dsimp only
        rw [hstart]
        congr 1
        omega
      · have hnot : ¬ recorder.Completes minute := by
          intro hcompletes
          have hfull := (blockMinutes_resumeBlock hdiscarded minute).mpr hcompletes.2
          unfold joinMinute at hshort
          dsimp only at hshort
          omega
        rw [if_neg hnot]
        exact blocks_resumeBlock _ minute
    · rename_i hlong
      have hfull : ((recorder.discardMinutes minute).resumeBlock minute).blockMinutes = 59 := by
        have hminutes := hresumed.minutes
        unfold joinMinute at hlong
        dsimp only at hlong
        omega
      have hfollows := (blockMinutes_resumeBlock hdiscarded minute).mp hfull
      have hsame := resumeBlock_of_follows hfollows.2
      have hclosed : ((((recorder.discardMinutes minute).resumeBlock minute).joinMinute minute
          (recorder.symbolCounts minute)).closeBlock minute).blocks =
            lastBlocks (recorder.blocks ++ [recorder.completedBlock minute]) := by
        unfold closeBlock joinMinute resetBlock completedBlock
        dsimp only
        rw [Option.getD_some, hstart, hfull, hsame]
        rfl
      refine ⟨?_, ?_⟩
      · exact { hresumed.resetBlock with
          complete := fun block hm => lastBlocks_complete h minute block (hclosed ▸ hm)
          atMost := by
            rw [hclosed]
            exact length_lastBlocks _
          counting := .inl ⟨rfl, rfl⟩ }
      · rw [hclosed, if_pos ⟨not_le.mp hlate, hfollows⟩]

end PublicTrafficRecorder

/-! ## Runs -/

variable {text : SymbolText} {state : TrafficState}

/-- What is saved is read as it was, and the blocks are ordered runs of 60 minutes. -/
def TrafficState.Reloadable (text : SymbolText) (state : TrafficState) : Prop :=
  parseBlocks text (statePayload state.recorder.blocks) = .ok state.recorder.blocks ∧
    OrderedBlocks state.recorder.blocks ∧ state.recorder.blocks.length ≤ 24 ∧
    ∀ block ∈ state.recorder.blocks, block.endMinute = block.startMinute + 59

/-- A call that completes a block does so 60 minutes after the end of the last block at least, and
has counted exchange symbols only. -/
def TrafficState.Fits (text : SymbolText) (state : TrafficState) : TrafficEvent → Prop
  | .finishMinute minute => state.recorder.Completes minute →
      (∀ last ∈ state.recorder.blocks.getLast?, last.endMinute < minute - 59) ∧
      (∀ peak ∈ state.recorder.blockPeaks, isExchangeSymbol text peak.1 = true) ∧
      ∀ count ∈ state.recorder.symbolCounts minute, isExchangeSymbol text count.1 = true
  | _ => True

theorem reloadable_iff (h : state.recorder.Assembled) : state.Reloadable text ↔
    OrderedBlocks state.recorder.blocks ∧
      ∀ block ∈ state.recorder.blocks, block.OfExchange text := by
  unfold TrafficState.Reloadable
  rw [parseBlocks_statePayload]
  constructor
  · exact fun hload => ⟨hload.1.1, fun block hm => (hload.1.2 block hm).2⟩
  · intro ⟨hordered, hexchange⟩
    exact ⟨⟨hordered, fun block hm => ⟨h.complete block hm, hexchange block hm⟩⟩, hordered,
      h.atMost, fun block hm => (h.complete block hm).minutes⟩

theorem ordered_append {blocks : List MessageRateBlock} {block : MessageRateBlock}
    (hordered : OrderedBlocks blocks) (hcomplete : ∀ b ∈ blocks, b.Complete)
    (hlast : ∀ last ∈ blocks.getLast?, last.endMinute < block.startMinute) :
    OrderedBlocks (blocks ++ [block]) := by
  apply List.pairwise_append.mpr
  refine ⟨hordered, List.pairwise_singleton _ _, fun earlier hm other hother => ?_⟩
  rw [List.mem_singleton.mp hother]
  have hend := List.getLast?_eq_some_getLast (List.ne_nil_of_mem hm)
  have hbefore := hlast _ hend
  obtain ⟨front, hsplit⟩ := List.getLast?_eq_some_iff.mp hend
  rw [hsplit] at hm hordered
  cases List.mem_append.mp hm with
  | inl hfront =>
    have hless := (List.pairwise_append.mp hordered).2.2 earlier hfront _
      (List.mem_singleton_self _)
    have hminutes := (hcomplete _ (List.mem_of_getLast? hend)).minutes
    omega
  | inr hsame =>
    rw [List.mem_singleton.mp hsame]
    exact hbefore

theorem reloadable_lastBlocks {blocks : List MessageRateBlock} {block : MessageRateBlock}
    (hcomplete : ∀ b ∈ blocks, b.Complete) (hlength : blocks.length ≤ 24)
    (hblocks : OrderedBlocks blocks ∧ ∀ b ∈ blocks, b.OfExchange text) :
    (OrderedBlocks (lastBlocks (blocks ++ [block])) ∧
        ∀ b ∈ lastBlocks (blocks ++ [block]), b.OfExchange text) ↔
      (∀ last ∈ blocks.getLast?, last.endMinute < block.startMinute) ∧ block.OfExchange text := by
  constructor
  · intro ⟨hordered, hexchange⟩
    constructor
    · intro last hlast
      obtain ⟨front, rfl⟩ := List.getLast?_eq_some_iff.mp hlast
      have hback : ([last] ++ [block]).length ≤ 24 := Nat.le_add_left 2 22
      rw [List.append_assoc, lastBlocks_append front hback] at hordered
      have htail := (List.pairwise_append.mp hordered).2.1
      exact (List.pairwise_cons.mp htail).1 block (List.mem_singleton_self block)
    · apply hexchange
      have hback : [block].length ≤ 24 := Nat.le_add_left 1 23
      rw [lastBlocks_append blocks hback]
      exact List.mem_append_right _ (List.mem_singleton_self block)
  · intro ⟨hlast, hblock⟩
    constructor
    · exact (ordered_append hblocks.1 hcomplete hlast).sublist (lastBlocks_sublist _)
    · intro b hm
      cases List.mem_append.mp ((lastBlocks_sublist _).subset hm) with
      | inl hold => exact hblocks.2 b hold
      | inr hnew =>
        rw [List.mem_singleton.mp hnew]
        exact hblock

theorem assembled_step (h : state.recorder.Assembled) (event : TrafficEvent) :
    (state.step text event).recorder.Assembled := by
  cases event with
  | record minute route symbol => exact h.record route symbol
  | finishMinute minute => exact (PublicTrafficRecorder.finishMinute_spec h minute).1
  | persist => exact h
  | restart minute => exact PublicTrafficRecorder.assembled_start text state.file minute

/-- One step keeps the blocks readable exactly when what it completes fits. -/
theorem reloadable_step (h : state.recorder.Assembled) (hload : state.Reloadable text)
    (event : TrafficEvent) :
    (state.step text event).Reloadable text ↔ state.Fits text event := by
  cases event with
  | record minute route symbol => exact ⟨fun _ => trivial, fun _ => hload⟩
  | persist => exact ⟨fun _ => trivial, fun _ => hload⟩
  | restart minute =>
    refine ⟨fun _ => trivial, fun _ => ?_⟩
    obtain ⟨hordered, -, hall⟩ := loadBlocks_spec text state.file
    have hstart : (state.step text (.restart minute)).recorder.Assembled := assembled_step h _
    exact (reloadable_iff hstart).mpr ⟨hordered, fun block hm => (hall block hm).2⟩
  | finishMinute minute =>
    obtain ⟨hnext, hblocks⟩ := PublicTrafficRecorder.finishMinute_spec h minute
    rw [reloadable_iff h] at hload
    have hsame : (state.step text (.finishMinute minute)).recorder =
      (state.recorder.finishMinute minute).1 := rfl
    rw [reloadable_iff (hsame ▸ hnext), hsame, hblocks]
    unfold TrafficState.Fits
    dsimp only
    by_cases hcompletes : state.recorder.Completes minute
    · rw [if_pos hcompletes, reloadable_lastBlocks h.complete h.atMost hload,
        PublicTrafficRecorder.completedBlock_ofExchange]
      exact ⟨fun hfits _ => hfits, fun hfits => hfits hcompletes⟩
    · rw [if_neg hcompletes]
      exact ⟨fun _ hneg => absurd hneg hcompletes, fun _ => hload⟩

/-- In a run from any file, every state can be reloaded exactly when every call fits. -/
theorem traffic_reloadable (text : SymbolText) (file : Option Json) (minute : Int)
    (events : List TrafficEvent) :
    (∀ done, done <+: events →
      (done.foldl (TrafficState.step text) ⟨.start text file minute, file⟩).Reloadable text) ↔
    ∀ done event, done ++ [event] <+: events →
      (done.foldl (TrafficState.step text) ⟨.start text file minute, file⟩).Fits text event := by
  have hstart := PublicTrafficRecorder.assembled_start text file minute
  obtain ⟨hordered, -, hall⟩ := loadBlocks_spec text file
  have hload : TrafficState.Reloadable text ⟨.start text file minute, file⟩ :=
    (reloadable_iff hstart).mpr ⟨hordered, fun block hm => (hall block hm).2⟩
  exact @foldl_iff_guard _ _ (TrafficState.step text) (fun state => state.recorder.Assembled)
    (TrafficState.Reloadable text) (TrafficState.Fits text) (fun _ event h => assembled_step h event)
    (fun _ event h hload => reloadable_step h hload event) _ hstart hload events

/-- The minutes of a collector that starts in minute 0, the 60th one twice. -/
def repeatedMinutes : List TrafficEvent :=
  ((List.range 60).map fun minute => .finishMinute (minute + 1)) ++
    (List.range 60).map fun minute => .finishMinute (minute + 60)

def afterRepeatedMinute : TrafficState :=
  repeatedMinutes.foldl (TrafficState.step asciiText) ⟨.start asciiText none 0, none⟩

/-- The second block begins in the minute in which the first one ends, and the next start finds no
blocks at all. -/
theorem traffic_repeatedMinute :
    afterRepeatedMinute.recorder.blocks = [⟨1, 60, []⟩, ⟨60, 119, []⟩] ∧
      parseBlocks asciiText (statePayload afterRepeatedMinute.recorder.blocks) =
        .error "public traffic blocks must be ordered" ∧
      ((afterRepeatedMinute.step asciiText .persist).step asciiText
        (.restart 120)).recorder.blocks = [] := by
  have hblocks : afterRepeatedMinute.recorder.blocks = [⟨1, 60, []⟩, ⟨60, 119, []⟩] := by
    decide +kernel
  refine ⟨hblocks, ?_, ?_⟩
  · rw [hblocks]
    rfl
  · unfold TrafficState.step PublicTrafficRecorder.start
    dsimp only
    rw [hblocks]
    rfl

end MiryFormal
