import MiryFormal.Pipeline.L2Validity

/-!
# Pairing the events of a ledger

Both readers of a day's ledger pair each CLOSED event with the OPEN event before it that no
other event of the gap follows. Which gaps are open after some events only depends on the
last event of each gap, hence not on the order of events that sort alike.
-/

namespace MiryFormal

set_option autoImplicit false

/-- `o` opens the gap, and no later event belongs to it. -/
def LastOpen (events : List GapEvent) (gapId : String) (o : GapEvent) : Prop :=
  ∃ before after, events = before ++ o :: after ∧ o.state = .opened ∧ o.gapId = gapId ∧
    ∀ event ∈ after, event.gapId ≠ gapId

theorem concat_eq_split {α : Type} {events before after : List α} {e c : α} :
    events ++ [e] = before ++ c :: after ↔
      (after = [] ∧ c = e ∧ before = events) ∨
        ∃ after', after = after' ++ [e] ∧ events = before ++ c :: after' := by
  constructor
  · intro h
    rcases List.eq_nil_or_concat after with rfl | ⟨after', last, rfl⟩
    · obtain ⟨rfl, hc⟩ := List.append_inj' h rfl
      exact .inl ⟨rfl, (List.singleton_inj.mp hc).symm, rfl⟩
    · rw [List.concat_eq_append, ← List.cons_append, ← List.append_assoc] at h
      obtain ⟨rfl, hlast⟩ := List.append_inj' h rfl
      obtain rfl := List.singleton_inj.mp hlast
      exact .inr ⟨after', List.concat_eq_append, rfl⟩
  · rintro (⟨rfl, rfl, rfl⟩ | ⟨after', rfl, rfl⟩)
    · rfl
    · simp

theorem lastOpen_concat {events : List GapEvent} {event o : GapEvent} {gapId : String} :
    LastOpen (events ++ [event]) gapId o ↔
      (event.gapId = gapId ∧ event.state = .opened ∧ o = event) ∨
        (event.gapId ≠ gapId ∧ LastOpen events gapId o) := by
  constructor
  · rintro ⟨before, after, hsplit, hstate, hid, hafter⟩
    rcases concat_eq_split.mp hsplit with ⟨rfl, rfl, rfl⟩ | ⟨after', rfl, rfl⟩
    · exact .inl ⟨hid, hstate, rfl⟩
    · exact .inr ⟨hafter event (by simp), before, after', rfl, hstate, hid,
        fun e hm => hafter e (List.mem_append_left _ hm)⟩
  · rintro (⟨hid, hstate, rfl⟩ | ⟨hne, before, after, rfl, hstate, hid, hafter⟩)
    · exact ⟨events, [], rfl, hstate, hid, by simp⟩
    · refine ⟨before, after ++ [event], by simp, hstate, hid, fun e hm => ?_⟩
      rcases List.mem_append.mp hm with hm | hm
      · exact hafter e hm
      · rw [List.mem_singleton.mp hm]
        exact hne

theorem LastOpen.mem {events : List GapEvent} {gapId : String} {o : GapEvent}
    (h : LastOpen events gapId o) : o ∈ events := by
  obtain ⟨before, after, rfl, -⟩ := h
  simp

theorem lastOpen_unique {events : List GapEvent} {gapId : String} {o o' : GapEvent}
    (h : LastOpen events gapId o) (h' : LastOpen events gapId o') : o = o' := by
  induction events using List.reverseRecOn with
  | nil =>
    have := h.mem
    simp at this
  | append_singleton events event ih =>
    rcases lastOpen_concat.mp h with ⟨hid, -, rfl⟩ | ⟨hne, h⟩ <;>
      rcases lastOpen_concat.mp h' with ⟨hid', -, rfl⟩ | ⟨hne', h'⟩
    · rfl
    · exact absurd hid hne'
    · exact absurd hid' hne
    · exact ih h h'

theorem mem_foldl_trackGap {events : List GapEvent} {gapId : String} :
    gapId ∈ events.foldl trackGap [] ↔ ∃ o, LastOpen events gapId o := by
  induction events using List.reverseRecOn with
  | nil =>
    simp only [List.foldl_nil, List.not_mem_nil, false_iff, not_exists]
    intro o h
    have := h.mem
    simp at this
  | append_singleton events event ih =>
    rw [List.foldl_append, List.foldl_cons, List.foldl_nil]
    simp only [lastOpen_concat, exists_or, exists_and_left, ← ih]
    cases hstate : event.state with
    | opened =>
      by_cases hid : event.gapId = gapId
      · simp [trackGap, hstate, hid]
      · simp [trackGap, hstate, hid, Ne.symm hid]
    | closed =>
      by_cases hid : event.gapId = gapId
      · simp [trackGap, hstate, hid]
      · simp [trackGap, hstate, hid, Ne.symm hid]

/-! ## The pairs -/

/-- The CLOSED event `closed` ends the gap interval that `o` opened. -/
def ClosesAt (events : List GapEvent) (o closed : GapEvent) : Prop :=
  ∃ before after, events = before ++ closed :: after ∧ closed.state = .closed ∧
    LastOpen before closed.gapId o

theorem closesAt_concat {events : List GapEvent} {event o closed : GapEvent} :
    ClosesAt (events ++ [event]) o closed ↔
      (closed = event ∧ event.state = .closed ∧ LastOpen events event.gapId o) ∨
        ClosesAt events o closed := by
  constructor
  · rintro ⟨before, after, hsplit, hstate, hlast⟩
    rcases concat_eq_split.mp hsplit with ⟨rfl, rfl, rfl⟩ | ⟨after', rfl, rfl⟩
    · exact .inl ⟨rfl, hstate, hlast⟩
    · exact .inr ⟨before, after', rfl, hstate, hlast⟩
  · rintro (⟨rfl, hstate, hlast⟩ | ⟨before, after, rfl, hstate, hlast⟩)
    · exact ⟨events, [], rfl, hstate, hlast⟩
    · exact ⟨before, after ++ [event], by simp, hstate, hlast⟩

/-- What the pairing loop has found in the events so far. -/
structure Paired (events : List GapEvent) (pairing : GapPairing) : Prop where
  distinct : KeyedDict.Distinct id pairing.opened
  opened : ∀ gapId start, KeyedDict.get id gapId pairing.opened = some start ↔
    ∃ o, LastOpen events gapId o ∧ o.explicitEffectiveNs = start
  intervals : ∀ entry, entry ∈ pairing.intervals ↔ ∃ o closed, ClosesAt events o closed ∧
    entry = (closed.gapId, o.explicitEffectiveNs, closed.explicitEndNs)

theorem Paired.handle {events : List GapEvent} {pairing : GapPairing} (h : Paired events pairing)
    (event : GapEvent) : Paired (events ++ [event]) (pairing.handle event) := by
  cases hstate : event.state with
  | opened =>
    simp only [GapPairing.handle, hstate]
    refine ⟨KeyedDict.distinct_set h.distinct _ _, fun gapId start => ?_, fun entry => ?_⟩
    · simp only [KeyedDict.get_set, lastOpen_concat, id]
      by_cases hid : event.gapId = gapId
      · simp [hid, hstate]
      · simp [hid, h.opened]
    · simp [closesAt_concat, hstate, h.intervals]
  | closed =>
    simp only [GapPairing.handle, hstate]
    cases hget : KeyedDict.get id event.gapId pairing.opened with
    | none =>
      have hnone : ∀ o, ¬ LastOpen events event.gapId o := fun o hlast => by
        have hsome := (h.opened event.gapId o.explicitEffectiveNs).mpr ⟨o, hlast, rfl⟩
        exact Option.some_ne_none _ (hsome.symm.trans hget)
      refine ⟨h.distinct, fun gapId start => ?_, fun entry => ?_⟩
      · rw [h.opened]
        simp only [lastOpen_concat, hstate]
        refine exists_congr fun o => and_congr_left fun _ => ⟨fun hlast => .inr ⟨?_, hlast⟩, ?_⟩
        · rintro rfl
          exact hnone o hlast
        · rintro (⟨-, habsurd, -⟩ | ⟨-, hlast⟩)
          · cases habsurd
          · exact hlast
      · simp [closesAt_concat, hnone, h.intervals]
    | some start =>
      obtain ⟨o, hlast, rfl⟩ := (h.opened event.gapId start).mp hget
      refine ⟨KeyedDict.distinct_pop h.distinct _, fun gapId start => ?_, fun entry => ?_⟩
      · simp only [KeyedDict.get_pop, lastOpen_concat, hstate]
        by_cases hid : event.gapId = gapId
        · simp [hid]
        · simp [hid, h.opened]
      · simp only [List.mem_append, List.mem_singleton, h.intervals, closesAt_concat]
        constructor
        · rintro (⟨o', closed, hcloses, rfl⟩ | rfl)
          · exact ⟨o', closed, .inr hcloses, rfl⟩
          · exact ⟨o, event, .inl ⟨rfl, hstate, hlast⟩, rfl⟩
        · rintro ⟨o', closed, ⟨rfl, -, hlast'⟩ | hcloses, rfl⟩
          · rw [lastOpen_unique hlast' hlast]
            exact .inr rfl
          · exact .inl ⟨o', closed, hcloses, rfl⟩

theorem paired_foldl (events : List GapEvent) :
    Paired events (events.foldl GapPairing.handle {}) := by
  induction events using List.reverseRecOn with
  | nil =>
    refine ⟨List.nodup_nil, fun gapId start => ?_, fun entry => ?_⟩
    · simp only [KeyedDict.get_nil, reduceCtorEq, false_iff, not_exists, List.foldl_nil]
      rintro o ⟨hlast, -⟩
      have := hlast.mem
      simp at this
    · simp only [List.foldl_nil, List.not_mem_nil, false_iff, not_exists]
      rintro o closed ⟨⟨before, after, hsplit, -⟩, -⟩
      simp at hsplit
  | append_singleton events event ih =>
    rw [List.foldl_append, List.foldl_cons, List.foldl_nil]
    exact ih.handle event

/-- The labelled intervals of a ledger are its pairs and its unclosed gaps. -/
theorem mem_labelledIntervals {ledger : List GapEvent} {symbol : String} {windowEndNs : Int}
    {entry : String × Int × Int} :
    entry ∈ labelledIntervals ledger symbol windowEndNs ↔
      (∃ o closed, ClosesAt (explicitEvents ledger symbol) o closed ∧
        entry = (closed.gapId, o.explicitEffectiveNs, closed.explicitEndNs)) ∨
      ∃ gapId o, LastOpen (explicitEvents ledger symbol) gapId o ∧
        entry = (gapId, o.explicitEffectiveNs, windowEndNs) := by
  have hpaired := paired_foldl (explicitEvents ledger symbol)
  rw [labelledIntervals, GapPairing.all, List.mem_append, hpaired.intervals, List.mem_map]
  refine or_congr_right ⟨?_, ?_⟩
  · rintro ⟨⟨gapId, start⟩, hm, rfl⟩
    obtain ⟨o, hlast, rfl⟩ := (hpaired.opened gapId start).mp
      (KeyedDict.get_of_mem hpaired.distinct hm)
    exact ⟨gapId, o, hlast, rfl⟩
  · rintro ⟨gapId, o, hlast, rfl⟩
    obtain ⟨key, hm, rfl⟩ := KeyedDict.mem_of_get ((hpaired.opened gapId _).mpr ⟨o, hlast, rfl⟩)
    exact ⟨_, hm, rfl⟩

end MiryFormal
