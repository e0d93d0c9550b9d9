import MiryFormal.Pipeline.Quality
import MiryFormal.Shared.Fallible

/-!
# The terminal markers of a day

`finalize_day` judges every symbol of the sealed universe and writes one of two markers beside
their coverage. The scheduler takes either of them for the end of the day. A run may also be cut
between two of its file operations.
-/

namespace MiryFormal

set_option autoImplicit false

/-- The fields of `_NORMALIZED.json` that are copied into the markers. -/
structure DayProvenance where
  coreGeneration : Option String := none
  candidateRevision : Option String := none
  decisionSequence : Option String := none
  universeVersion : Option String := none
  universeHash : Option String := none
  sealedManifestSha256 : Option String := none
  deriving DecidableEq

/-- The fields of `_NORMALIZED.json` that `finalize_day` reads. `expectedSymbols` is there when
it is a list of strings. -/
structure NormalizedDay where
  expectedSymbols : Option (List String)
  collectionWindowStartNs : Option Int := none
  collectionWindowEndNs : Option Int := none
  provenance : DayProvenance := {}

/-- The files that one run finds. -/
structure QualityDay where
  collectorId : String
  utcDate : Int
  normalized : Option NormalizedDay
  /-- `l2-validity.jsonl` of a symbol; a row that is not well formed is an error. -/
  validity : String → Option (Except String (List ValidityInterval))
  /-- `l2-checkpoint.json` of a symbol -/
  checkpoint : String → Option (Except String L2Checkpoint)
  /-- `transport-gaps.jsonl`; without the file there are no gaps. -/
  ledger : Except String (List GapEvent)

/-- The quality marker, without its ratio texts. -/
structure QualityMarker where
  collectorId : String
  utcDate : Int
  symbols : List String
  provenance : DayProvenance
  collectionWindowStartNs : Int
  collectionWindowEndNs : Int
  qualityPolicy : String := "l2-coverage-v1"
  minimumL2ValidRatio : String := "0.999"
  l2Coverage : List (String × SymbolCoverage)
  deriving DecidableEq

/-- The loop variables of `finalize_day`. -/
structure Judgement where
  missing : List String := []
  coverage : List (String × SymbolCoverage) := []
  rejected : List String := []
  deriving DecidableEq

/-- The coverage of a symbol, and whether it is rejected. -/
def Judgement.record (judgement : Judgement) (symbol : String) (coverage : SymbolCoverage) :
    Judgement :=
  { judgement with
    coverage := judgement.coverage ++ [(symbol, coverage)]
    rejected := if coverage.accepted then judgement.rejected else judgement.rejected ++ [symbol] }

/-- A judgement that every symbol took part in, with what goes into the marker. -/
structure Verdict where
  marker : QualityMarker
  rejected : List String
  deriving DecidableEq

namespace QualityDay

/-- One pass of the loop over the symbols. -/
def judgeSymbol (day : QualityDay) (windowStartNs windowEndNs : Int) (judgement : Judgement)
    (symbol : String) : Except String Judgement :=
  match day.validity symbol, day.checkpoint symbol with
  | some readRows, some readCheckpoint => do
      let rows ← readRows
      let validIntervals ← validateValidity day.utcDate rows
      let checkpoint ← readCheckpoint
      if checkpoint.collectorId ≠ day.collectorId ∨ checkpoint.utcDate ≠ day.utcDate ∨
          checkpoint.exchangeSymbol ≠ symbol then
        .error "L2 checkpoint identity mismatch"
      else do
        let ledger ← day.ledger
        let coverage := symbolCoverage validIntervals ledger symbol windowStartNs windowEndNs
        return judgement.record symbol coverage
  | _, _ => .ok { judgement with missing := judgement.missing ++ [symbol] }

/-- `finalize_day` up to its first file operation. -/
def judge (day : QualityDay) (symbols : List String) : Except String Verdict :=
  match day.normalized with
  | none => .error "day is not normalized"
  | some normalized =>
      match normalized.expectedSymbols with
      | none => .error "normalized day has no authoritative 60-symbol universe"
      | some expectedSymbols =>
          let windowStartNs :=
            normalized.collectionWindowStartNs.getD (dayStartNs day.utcDate)
          let windowEndNs := normalized.collectionWindowEndNs.getD (dayEndNs day.utcDate)
          if expectedSymbols.length ≠ 60 ∨ ¬ expectedSymbols.Nodup then
            .error "normalized day has no authoritative 60-symbol universe"
          else if symbols.mergeSort (· ≤ ·) ≠ expectedSymbols.mergeSort (· ≤ ·) then
            .error "requested symbols do not match sealed universe"
          else if ¬ (dayStartNs day.utcDate ≤ windowStartNs ∧ windowStartNs < windowEndNs ∧
              windowEndNs ≤ dayEndNs day.utcDate) then
            .error "normalized collection window falls outside UTC day"
          else do
            let judgement ← symbols.foldlM (day.judgeSymbol windowStartNs windowEndNs) {}
            if judgement.missing ≠ [] then
              .error ("missing L2 outputs: " ++ ",".intercalate judgement.missing)
            else return {
              marker := {
                collectorId := day.collectorId
                utcDate := day.utcDate
                symbols
                provenance := normalized.provenance
                collectionWindowStartNs := windowStartNs
                collectionWindowEndNs := windowEndNs
                l2Coverage := judgement.coverage }
              rejected := judgement.rejected }

end QualityDay

/-! ## The markers on disk -/

/-- `_PROCESSED.json` and `_QUALITY_REJECTED.json`, the latter with the rejected symbols. -/
structure QualityFolder where
  processed : Option QualityMarker := none
  qualityRejected : Option (QualityMarker × List String) := none
  deriving DecidableEq

inductive QualityWrite where
  | writeProcessed (marker : QualityMarker)
  | writeRejected (marker : QualityMarker) (rejected : List String)
  | unlinkRejected
  deriving DecidableEq

def QualityFolder.perform (folder : QualityFolder) : QualityWrite → QualityFolder
  | .writeProcessed marker => { folder with processed := some marker }
  | .writeRejected marker rejected => { folder with qualityRejected := some (marker, rejected) }
  | .unlinkRejected => { folder with qualityRejected := none }

namespace Verdict

/-- The file operations that a verdict leads to, in order. -/
def writes (verdict : Verdict) : List QualityWrite :=
  if verdict.rejected = [] then [.writeProcessed verdict.marker, .unlinkRejected]
  else [.writeRejected verdict.marker verdict.rejected]

/-- Every symbol has the coverage that the quality contract asks for. -/
def AcceptsAll (verdict : Verdict) : Prop :=
  ∀ entry ∈ verdict.marker.l2Coverage, entry.2.accepted = true

instance (verdict : Verdict) : Decidable verdict.AcceptsAll :=
  inferInstanceAs (Decidable (∀ entry ∈ verdict.marker.l2Coverage, entry.2.accepted = true))

end Verdict

def finalizeDay (day : QualityDay) (symbols : List String) (folder : QualityFolder) :
    QualityFolder × Except String Unit :=
  match day.judge symbols with
  | .error message => (folder, .error message)
  | .ok verdict =>
      (verdict.writes.foldl QualityFolder.perform folder,
        if verdict.rejected = [] then .ok ()
        else .error ("L2 coverage below quality contract: " ++
          ",".intercalate verdict.rejected))

/-- A run of `finalize_day`, which may be cut after some of its file operations. -/
structure FinalizeRun where
  day : QualityDay
  symbols : List String
  cutAfter : Option Nat := none

namespace FinalizeRun

def finalize (run : FinalizeRun) (folder : QualityFolder) : QualityFolder :=
  match run.cutAfter with
  | none => (finalizeDay run.day run.symbols folder).1
  | some operations =>
      match run.day.judge run.symbols with
      | .error _ => folder
      | .ok verdict => (verdict.writes.take operations).foldl QualityFolder.perform folder

/-- The folder after a history of runs. -/
def folderAfter (history : List FinalizeRun) : QualityFolder :=
  history.foldl (fun folder run => run.finalize folder) {}

/-- The run came to a verdict, and performed all that it asks for. -/
def Completes (run : FinalizeRun) (verdict : Verdict) : Prop :=
  run.cutAfter = none ∧ run.day.judge run.symbols = .ok verdict

/-- The run got as far as writing `_PROCESSED.json`. -/
def WritesProcessed (run : FinalizeRun) : Prop :=
  ∃ verdict, run.day.judge run.symbols = .ok verdict ∧ verdict.AcceptsAll ∧
    run.cutAfter ≠ some 0

end FinalizeRun

/-- Exactly the marker of the verdict is there. -/
def QualityFolder.Reflects (folder : QualityFolder) (verdict : Verdict) : Prop :=
  (folder.processed ≠ none ↔ verdict.AcceptsAll) ∧
    (folder.qualityRejected ≠ none ↔ ¬ verdict.AcceptsAll)

/-! ## The verdict -/

/-- What the loop knows once it has passed `symbols`. -/
structure Judgement.Passed (symbols : List String) (judgement : Judgement) : Prop where
  symbols_eq : judgement.missing = [] → judgement.coverage.map Prod.fst = symbols
  rejected_iff : judgement.rejected = [] ↔ ∀ entry ∈ judgement.coverage, entry.2.accepted = true

namespace QualityDay
variable {day : QualityDay} {windowStartNs windowEndNs : Int} {before after : Judgement}

theorem judgeSymbol_cases {symbol : String}
    (h : day.judgeSymbol windowStartNs windowEndNs before symbol = .ok after) :
    after = { before with missing := before.missing ++ [symbol] } ∨
      ∃ coverage : SymbolCoverage, after = before.record symbol coverage := by
  unfold judgeSymbol at h
  cases hvalidity : day.validity symbol with
  | none =>
    rw [hvalidity] at h
    cases h
    exact .inl rfl
  | some readRows =>
    cases hcheckpoint : day.checkpoint symbol with
    | none =>
      rw [hvalidity, hcheckpoint] at h
      cases h
      exact .inl rfl
    | some readCheckpoint =>
      rw [hvalidity, hcheckpoint] at h
      obtain ⟨rows, -, h⟩ := exists_of_bind_ok h
      obtain ⟨validIntervals, -, h⟩ := exists_of_bind_ok h
      obtain ⟨checkpoint, -, h⟩ := exists_of_bind_ok h
      by_cases hmismatch : checkpoint.collectorId ≠ day.collectorId ∨
          checkpoint.utcDate ≠ day.utcDate ∨ checkpoint.exchangeSymbol ≠ symbol
      · cases (if_pos hmismatch).symm.trans h
      · obtain ⟨ledger, -, h⟩ := exists_of_bind_ok ((if_neg hmismatch).symm.trans h)
        cases h
        exact .inr ⟨_, rfl⟩

theorem passed_step {symbols : List String} {symbol : String} (h : before.Passed symbols)
    (hstep : day.judgeSymbol windowStartNs windowEndNs before symbol = .ok after) :
    after.Passed (symbols ++ [symbol]) := by
  cases judgeSymbol_cases hstep with
  | inl hmissing =>
    subst hmissing
    refine ⟨fun hnil => ?_, h.rejected_iff⟩
    cases List.append_ne_nil_of_right_ne_nil _ (List.cons_ne_nil symbol []) hnil
  | inr hjudged =>
    obtain ⟨coverage, rfl⟩ := hjudged
    constructor
    · intro hnil
      unfold Judgement.record
      rw [List.map_append, h.symbols_eq hnil]
      rfl
    · unfold Judgement.record
      dsimp only
      rw [List.forall_mem_append, List.forall_mem_singleton, ← h.rejected_iff]
      by_cases haccepted : coverage.accepted = true
      · rw [if_pos haccepted]
        exact (and_iff_left haccepted).symm
      · rw [if_neg haccepted]
        exact iff_of_false (List.append_ne_nil_of_right_ne_nil _ (List.cons_ne_nil _ _))
          fun hall => haccepted hall.2

theorem passed_loop {passed symbols : List String} (h : before.Passed passed)
    (hloop : symbols.foldlM (day.judgeSymbol windowStartNs windowEndNs) before = .ok after) :
    after.Passed (passed ++ symbols) := by
  induction symbols generalizing passed before with
  | nil =>
    cases hloop
    rw [List.append_nil]
    exact h
  | cons symbol symbols ih =>
    rw [List.foldlM_cons] at hloop
    obtain ⟨middle, hstep, hrest⟩ := exists_of_bind_ok hloop
    rw [← List.singleton_append, ← List.append_assoc]
    exact ih (passed_step h hstep) hrest

theorem judge_ok {symbols : List String} {verdict : Verdict} (h : day.judge symbols = .ok verdict) :
    verdict.marker.l2Coverage.map Prod.fst = symbols ∧
      (verdict.rejected = [] ↔ verdict.AcceptsAll) := by
  unfold judge at h
  cases hnormalized : day.normalized with
  | none =>
    rw [hnormalized] at h
    cases h
  | some normalized =>
    cases hexpected : normalized.expectedSymbols with
    | none =>
      simp only [hnormalized, hexpected] at h
      cases h
    | some expectedSymbols =>
      simp only [hnormalized, hexpected] at h
      split at h
      · cases h
      · split at h
        · cases h
        · split at h
          · cases h
          · obtain ⟨judgement, hloop, h⟩ := exists_of_bind_ok h
            have hstart : Judgement.Passed [] {} := ⟨fun _ => rfl, by simp⟩
            have hpassed : judgement.Passed symbols := passed_loop hstart hloop
            by_cases hmissing : judgement.missing = []
            · cases (if_neg (not_not.mpr hmissing)).symm.trans h
              exact ⟨hpassed.symbols_eq hmissing, hpassed.rejected_iff⟩
            · cases (if_pos hmissing).symm.trans h

end QualityDay

/-! ## Histories -/

namespace FinalizeRun
variable {run : FinalizeRun} {verdict : Verdict}

theorem finalize_accepted (h : run.Completes verdict) (haccepts : verdict.AcceptsAll)
    (folder : QualityFolder) :
    run.finalize folder = { processed := some verdict.marker, qualityRejected := none } := by
  obtain ⟨hwhole, hjudge⟩ := h
  have hnil := (QualityDay.judge_ok hjudge).2.mpr haccepts
  unfold finalize finalizeDay Verdict.writes
  rw [hwhole, hjudge]
  dsimp only
  rw [if_pos hnil]
  rfl

theorem finalize_rejected (h : run.Completes verdict) (hrejects : ¬ verdict.AcceptsAll)
    (folder : QualityFolder) :
    run.finalize folder =
      { folder with qualityRejected := some (verdict.marker, verdict.rejected) } := by
  obtain ⟨hwhole, hjudge⟩ := h
  have hnil := mt (QualityDay.judge_ok hjudge).2.mp hrejects
  unfold finalize finalizeDay Verdict.writes
  rw [hwhole, hjudge]
  dsimp only
  rw [if_neg hnil]
  rfl

/-- No run ever takes `_PROCESSED.json` away. -/
theorem finalize_processed (run : FinalizeRun) (folder : QualityFolder) :
    (run.finalize folder).processed ≠ none ↔ folder.processed ≠ none ∨ run.WritesProcessed := by
  unfold WritesProcessed finalize finalizeDay
  cases hjudge : run.day.judge run.symbols with
  | error message =>
    have hnot : ¬ ∃ verdict : Verdict, (Except.error message : Except String Verdict) = .ok verdict ∧
        verdict.AcceptsAll ∧ run.cutAfter ≠ some 0 := by
      intro hex
      obtain ⟨_, hok, -⟩ := hex
      cases hok
    rw [or_iff_left hnot]
    cases run.cutAfter <;> rfl
  | ok verdict =>
    have hex : (∃ other : Verdict, (Except.ok verdict : Except String Verdict) = .ok other ∧
        other.AcceptsAll ∧ run.cutAfter ≠ some 0) ↔
          verdict.AcceptsAll ∧ run.cutAfter ≠ some 0 := by
      constructor
      · intro hex
        obtain ⟨other, hok, hrest⟩ := hex
        cases hok
        exact hrest
      · intro hrest
        exact ⟨verdict, rfl, hrest⟩
    rw [hex, ← (QualityDay.judge_ok hjudge).2]
    unfold Verdict.writes
    dsimp only
    by_cases hnil : verdict.rejected = []
    · rw [if_pos hnil]
      cases run.cutAfter with
      | none => simp [QualityFolder.perform, hnil]
      | some operations =>
        rcases operations with _ | _ | operations <;> simp [QualityFolder.perform, hnil]
    · rw [if_neg hnil]
      cases run.cutAfter with
      | none => simp [QualityFolder.perform, hnil]
      | some operations => cases operations <;> simp [QualityFolder.perform, hnil]

theorem folderAfter_snoc (history : List FinalizeRun) (run : FinalizeRun) :
    folderAfter (history ++ [run]) = run.finalize (folderAfter history) := by
  unfold folderAfter
  rw [List.foldl_append]
  rfl

theorem folderAfter_processed (history : List FinalizeRun) :
    (folderAfter history).processed ≠ none ↔ ∃ run ∈ history, run.WritesProcessed := by
  induction history using List.reverseRecOn with
  | nil => exact iff_of_false (fun h => h rfl) fun h => by simp at h
  | append_singleton history run ih =>
    rw [folderAfter_snoc, finalize_processed, ih]
    simp only [List.mem_append, List.mem_singleton, or_and_right, exists_or, exists_eq_left]

/-- The markers reflect every verdict of a history unless a run rejects after `_PROCESSED.json`
was written. -/
theorem reflects_iff (history : List FinalizeRun) :
    (∀ run ∈ history, ∀ verdict, run.Completes verdict →
      verdict.marker.l2Coverage.map Prod.fst = run.symbols) ∧
    ((∀ before run after verdict, history = before ++ run :: after → run.Completes verdict →
        (folderAfter (before ++ [run])).Reflects verdict) ↔
      ∀ before run after verdict, history = before ++ run :: after → run.Completes verdict →
        ¬ verdict.AcceptsAll → ∀ earlier ∈ before, ¬ earlier.WritesProcessed) := by
  refine ⟨fun run _ verdict h => (QualityDay.judge_ok h.2).1, ?_⟩
  constructor
  · intro hreflects before run after verdict hsplit hcompletes hrejects earlier hearlier hwrites
    obtain ⟨hprocessed, -⟩ := hreflects before run after verdict hsplit hcompletes
    apply hrejects
    apply hprocessed.mp
    rw [folderAfter_snoc, finalize_rejected hcompletes hrejects]
    exact (folderAfter_processed before).mpr ⟨earlier, hearlier, hwrites⟩
  · intro hnever before run after verdict hsplit hcompletes
    rw [folderAfter_snoc]
    by_cases haccepts : verdict.AcceptsAll
    · rw [finalize_accepted hcompletes haccepts]
      exact ⟨iff_of_true (Option.some_ne_none _) haccepts,
        iff_of_false (fun h => h rfl) fun h => h haccepts⟩
    · rw [finalize_rejected hcompletes haccepts]
      refine ⟨iff_of_false (fun hprocessed => ?_) haccepts,
        iff_of_true (Option.some_ne_none _) haccepts⟩
      obtain ⟨earlier, hearlier, hwrites⟩ := (folderAfter_processed before).mp hprocessed
      exact hnever before run after verdict hsplit hcompletes haccepts earlier hearlier hwrites

/-! Two runs of a day of one microsecond, whose validity files differ. -/

def sixtySymbols : List String :=
  (List.range 60).map fun length => String.ofList (List.replicate length 'A')

theorem sixtySymbols_nodup : sixtySymbols.Nodup := by
  apply List.nodup_range.map
  intro first second heq
  have hlength := congrArg (fun text : String => text.toList.length) heq
  simpa using hlength

/-- A day on which every symbol has the same validity rows, and no gap. -/
def uniformDay (rows : List ValidityInterval) : QualityDay where
  collectorId := "c"
  utcDate := 0
  normalized := some { expectedSymbols := some sixtySymbols, collectionWindowEndNs := some 1000 }
  validity := fun _ => some (.ok rows)
  checkpoint := fun symbol =>
    some (.ok (L2Checkpoint.unanchored "c" 0 symbol))
  ledger := .ok []

theorem judgeSymbol_uniformDay {rows : List ValidityInterval}
    {validIntervals : List (Int × Int)} (hrows : validateValidity 0 rows = .ok validIntervals)
    {coverage : SymbolCoverage}
    (hcoverage : ∀ symbol, symbolCoverage validIntervals [] symbol 0 1000 = coverage)
    (judgement : Judgement) (symbol : String) :
    (uniformDay rows).judgeSymbol 0 1000 judgement symbol =
      .ok (judgement.record symbol coverage) := by
  unfold QualityDay.judgeSymbol uniformDay L2Checkpoint.unanchored
  simp [hrows, hcoverage, bind, Except.bind, pure, Except.pure]

theorem judge_uniformDay {rows : List ValidityInterval} {validIntervals : List (Int × Int)}
    (hrows : validateValidity 0 rows = .ok validIntervals) {coverage : SymbolCoverage}
    (hcoverage : ∀ symbol, symbolCoverage validIntervals [] symbol 0 1000 = coverage) :
    ∃ verdict, (uniformDay rows).judge sixtySymbols = .ok verdict ∧
      verdict.marker.l2Coverage = sixtySymbols.map fun symbol => (symbol, coverage) := by
  have hloop : ∀ (symbols : List String) (before : Judgement), before.missing = [] →
      ∃ after, symbols.foldlM ((uniformDay rows).judgeSymbol 0 1000) before = .ok after ∧
        after.missing = [] ∧
        after.coverage = before.coverage ++ symbols.map fun symbol => (symbol, coverage) := by
    intro symbols
    induction symbols with
    | nil =>
      intro before hmissing
      exact ⟨before, rfl, hmissing, (List.append_nil _).symm⟩
    | cons symbol symbols ih =>
      intro before hmissing
      rw [List.foldlM_cons]
      apply exists_bind (judgeSymbol_uniformDay hrows hcoverage before symbol)
      obtain ⟨after, hafter, hnone, hcovered⟩ := ih (before.record symbol coverage) hmissing
      exact ⟨after, hafter, hnone, hcovered.trans (List.append_assoc _ _ _)⟩
  obtain ⟨after, hafter, hmissing, hcovered⟩ := hloop sixtySymbols {} rfl
  have hlength : ¬ (sixtySymbols.length ≠ 60 ∨ ¬ sixtySymbols.Nodup) :=
    not_or.mpr ⟨not_not.mpr rfl, not_not.mpr sixtySymbols_nodup⟩
  have hwindow : ¬ ¬ (dayStartNs 0 ≤ dayStartNs 0 ∧ dayStartNs 0 < 1000 ∧ 1000 ≤ dayEndNs 0) := by
    decide
  unfold QualityDay.judge
  refine ⟨_, (if_neg hlength).trans <| (if_neg (not_not.mpr rfl)).trans <|
    (if_neg hwindow).trans <| bind_eq hafter (if_neg (not_not.mpr hmissing)), hcovered⟩

theorem acceptsAll_uniform {verdict : Verdict} {coverage : SymbolCoverage}
    (h : verdict.marker.l2Coverage = sixtySymbols.map fun symbol => (symbol, coverage)) :
    verdict.AcceptsAll ↔ coverage.accepted = true := by
  have hsome : "" ∈ sixtySymbols := List.mem_map.mpr ⟨0, by decide, rfl⟩
  unfold Verdict.AcceptsAll
  rw [h, List.forall_mem_map]
  exact ⟨fun hall => hall "" hsome, fun haccepted _ _ => haccepted⟩

/-- A run accepts a day, and a later one with empty validity files rejects it. -/
theorem not_reflects_uniformDay : ¬ ∀ history : List FinalizeRun,
    ∀ before run after verdict, history = before ++ run :: after → run.Completes verdict →
      (folderAfter (before ++ [run])).Reflects verdict := by
  intro hreflects
  have hvalid : validateValidity 0 [⟨0, 1000, "k", "utc_day_end"⟩] = .ok [(0, 1000)] := rfl
  have hfull : ∀ symbol, symbolCoverage [(0, 1000)] [] symbol 0 1000 = ⟨1000, 1000, 0, 0, 0⟩ :=
    fun symbol => rfl
  have hempty : ∀ symbol, symbolCoverage [] [] symbol 0 1000 = ⟨1000, 0, 0, 0, 1000⟩ :=
    fun symbol => rfl
  obtain ⟨first, hfirst, hcovered⟩ := judge_uniformDay hvalid hfull
  have hnone : validateValidity 0 [] = .ok [] := rfl
  obtain ⟨second, hsecond, huncovered⟩ := judge_uniformDay hnone hempty
  have haccepts : first.AcceptsAll := (acceptsAll_uniform hcovered).mpr rfl
  have hrejects : ¬ second.AcceptsAll := fun hall => by
    cases (acceptsAll_uniform huncovered).mp hall
  let accepting : FinalizeRun := ⟨uniformDay [⟨0, 1000, "k", "utc_day_end"⟩], sixtySymbols, none⟩
  let rejecting : FinalizeRun := ⟨uniformDay [], sixtySymbols, none⟩
  have hcompletes : rejecting.Completes second := ⟨rfl, hsecond⟩
  obtain ⟨hprocessed, -⟩ := hreflects [accepting, rejecting] [accepting] rejecting [] second rfl
    hcompletes
  apply hrejects
  apply hprocessed.mp
  rw [folderAfter_snoc, finalize_rejected hcompletes hrejects]
  exact (folderAfter_processed [accepting]).mpr
    ⟨accepting, List.mem_singleton_self _, first, hfirst, haccepts, nofun⟩

end FinalizeRun

end MiryFormal
