import MiryFormal.Universe.Selection

/-!
# The selection is well formed

With dwell times that reach back no further than year 1, every lookup of the selection finds
its symbol and every role can be filled. What is returned is the active universe, or 60
distinct symbols whose entrants come from the pools.
-/

namespace MiryFormal

set_option autoImplicit false

/-! ## Lists of symbols -/

theorem mem_sortedSymbols {symbols : List String} {symbol : String} :
    symbol ∈ sortedSymbols symbols ↔ symbol ∈ symbols :=
  (List.perm_insertionSort _ _).mem_iff

theorem length_sortedSymbols (symbols : List String) :
    (sortedSymbols symbols).length = symbols.length :=
  List.length_insertionSort _ _

theorem nodup_sortedSymbols {symbols : List String} (h : symbols.Nodup) :
    (sortedSymbols symbols).Nodup :=
  (List.perm_insertionSort _ _).nodup_iff.mpr h

/-- Sorted symbols without repetition increase strictly. -/
theorem sorted_sortedSymbols {symbols : List String} (h : symbols.Nodup) :
    (sortedSymbols symbols).Pairwise (· < ·) := by
  have hsorted : (sortedSymbols symbols).Pairwise (· ≤ ·) := List.pairwise_insertionSort _ _
  exact hsorted.imp₂ (fun _ _ hle hne => lt_of_le_of_ne hle hne) (nodup_sortedSymbols h)

theorem mem_fromKeys {values : List String} {value : String} :
    value ∈ fromKeys values ↔ value ∈ values := by
  induction values with
  | nil => exact .rfl
  | cons first values ih =>
    rw [fromKeys, List.mem_cons, List.mem_cons, List.mem_filter, ih]
    by_cases h : value = first
    · simp [h]
    · simp [h]

theorem nodup_fromKeys (values : List String) : (fromKeys values).Nodup := by
  induction values with
  | nil => exact List.nodup_nil
  | cons first values ih =>
    refine List.nodup_cons.mpr ⟨fun hm => ?_, ih.filter _⟩
    simpa using (List.mem_filter.mp hm).2

theorem length_le_of_subset {a b : List String} (ha : a.Nodup) (hsub : ∀ s ∈ a, s ∈ b) :
    a.length ≤ b.length :=
  (List.subperm_of_subset ha hsub).length_le

theorem nodup_snoc {symbols : List String} {symbol : String} (h : symbols.Nodup)
    (hnew : symbol ∉ symbols) : (symbols ++ [symbol]).Nodup := by
  rw [← List.concat_eq_append]
  exact h.concat hnew

section ReplaceFirst
variable {values : List String} {old new : String}

theorem length_replaceFirst : (replaceFirst values old new).length = values.length :=
  List.length_set

theorem mem_of_mem_replaceFirst {symbol : String} (h : symbol ∈ replaceFirst values old new) :
    symbol ∈ values ∨ symbol = new :=
  List.mem_or_eq_of_mem_set h

theorem mem_replaceFirst {symbol : String} (h : symbol ∈ values) (hne : symbol ≠ old) :
    symbol ∈ replaceFirst values old new := by
  obtain ⟨index, hlt, rfl⟩ := List.getElem_of_mem h
  rw [replaceFirst, List.mem_iff_getElem]
  refine ⟨index, by rwa [List.length_set], ?_⟩
  rw [List.getElem_set_ne]
  intro heq
  subst heq
  exact hne (List.getElem_idxOf hlt)

theorem nodup_replaceFirst (h : values.Nodup) (hnew : new ∉ values) :
    (replaceFirst values old new).Nodup := by
  induction values with
  | nil => exact h
  | cons first values ih =>
    obtain ⟨hfirst, hrest⟩ := List.nodup_cons.mp h
    by_cases heq : first = old
    · rw [replaceFirst, heq, List.idxOf_cons_self, List.set_cons_zero]
      exact List.nodup_cons.mpr ⟨fun hm => hnew (List.mem_cons_of_mem _ hm), hrest⟩
    · have hset : replaceFirst (first :: values) old new = first :: replaceFirst values old new := by
        rw [replaceFirst, List.idxOf_cons_ne _ heq, List.set_cons_succ]
        rfl
      rw [hset]
      refine List.nodup_cons.mpr ⟨fun hm => ?_, ih hrest fun hm =>
        hnew (List.mem_cons_of_mem _ hm)⟩
      rcases mem_of_mem_replaceFirst hm with hm | rfl
      · exact hfirst hm
      · exact hnew List.mem_cons_self

theorem getElem?_replaceFirst {index : Nat} (h : values.Nodup) (hat : values[index]? = some old) :
    ∀ later, later ≠ index → (replaceFirst values old new)[later]? = values[later]? := by
  intro later hne
  have hindex : values.idxOf old = index := by
    obtain ⟨hlt, heq⟩ := List.getElem?_eq_some_iff.mp hat
    rw [← heq]
    exact h.idxOf_getElem index hlt
  rw [replaceFirst, hindex, List.getElem?_set_ne (Ne.symm hne)]

end ReplaceFirst

/-! ## Dwell times -/

theorem minus_ok {instant : Datetime} {required : Timedelta}
    (h : required.micros ≤ instant.micros) : ∃ cutoff, instant.minus required = .ok cutoff :=
  ⟨_, if_pos h⟩

theorem dwellComplete_ok {joined effective : Datetime} {required : Timedelta}
    (h : required.micros ≤ effective.micros) :
    ∃ complete, dwellComplete joined effective required = .ok complete :=
  bind_total (minus_ok h) fun _ _ => ⟨_, rfl⟩

theorem ofHours_ok {hours : Nat} {effective : Datetime}
    (h : hours * 3600000000 ≤ effective.micros) :
    ∃ required, Timedelta.ofHours hours = .ok required ∧ required.micros ≤ effective.micros := by
  have hrange := effective.inRange
  exact ⟨_, dif_pos (by omega), h⟩

theorem ofDays_ok {days : Nat} {effective : Datetime}
    (h : days * 86400000000 ≤ effective.micros) :
    ∃ required, Timedelta.ofDays days = .ok required ∧ required.micros ≤ effective.micros := by
  have hrange := effective.inRange
  exact ⟨_, dif_pos (by omega), h⟩

/-- A filter by tests that all return. -/
theorem filterM_total {α : Type} {p : α → Except String Bool} (h : ∀ a, ∃ b, p a = .ok b)
    (inputs : List α) : ∃ kept, inputs.filterM p = .ok kept ∧ kept.Sublist inputs := by
  choose q hq using h
  exact ⟨_, filterM_eq fun a _ => hq a, List.filter_sublist⟩

/-! ## Buckets -/

section Bucket
variable {preferred result : List String}

theorem length_fillBucket (hpreferred : preferred.Nodup) (hle : result.length ≤ 5)
    (henough : 5 ≤ result.length + (preferred.filter fun symbol => symbol ∉ result).length) :
    (fillBucket preferred result).length = 5 := by
  induction preferred generalizing result with
  | nil =>
    rw [List.filter_nil, List.length_nil] at henough
    exact le_antisymm hle henough
  | cons symbol preferred ih =>
    obtain ⟨hsymbol, hrest⟩ := List.nodup_cons.mp hpreferred
    rw [fillBucket]
    by_cases hfull : 5 ≤ result.length
    · rw [if_pos hfull]
      exact le_antisymm hle hfull
    · rw [if_neg hfull]
      by_cases hm : symbol ∈ result
      · rw [if_pos hm]
        rw [List.filter_cons_of_neg (by simpa using hm)] at henough
        exact ih hrest hle henough
      · rw [if_neg hm]
        rw [List.filter_cons_of_pos (by simpa using hm), List.length_cons] at henough
        have hsame : (preferred.filter fun later => later ∉ result ++ [symbol]) =
            preferred.filter fun later => later ∉ result := by
          refine List.filter_congr fun later hlater => ?_
          have hne : later ≠ symbol := fun heq => hsymbol (heq ▸ hlater)
          simp [hne]
        refine ih hrest ?_ ?_
        · rw [List.length_append, List.length_singleton]
          omega
        · rw [hsame, List.length_append, List.length_singleton]
          omega

theorem nodup_fillBucket (h : result.Nodup) : (fillBucket preferred result).Nodup := by
  induction preferred generalizing result with
  | nil => exact h
  | cons symbol preferred ih =>
    rw [fillBucket]
    split
    · exact h
    · split
      · exact ih h
      · rename_i hm
        exact ih (nodup_snoc h hm)

theorem mem_of_mem_fillBucket {symbol : String} (h : symbol ∈ fillBucket preferred result) :
    symbol ∈ result ∨ symbol ∈ preferred := by
  induction preferred generalizing result with
  | nil => exact .inl h
  | cons first preferred ih =>
    rw [fillBucket] at h
    split at h
    · exact .inl h
    · split at h
      · exact (ih h).imp_right (List.mem_cons_of_mem _)
      · rcases ih h with hm | hm
        · rcases List.mem_append.mp hm with hm | hm
          · exact .inl hm
          · exact .inr (List.mem_singleton.mp hm ▸ List.mem_cons_self)
        · exact .inr (List.mem_cons_of_mem _ hm)

theorem fillBucket_full (h : 5 ≤ result.length) : fillBucket preferred result = result := by
  cases preferred with
  | nil => rfl
  | cons symbol preferred => rw [fillBucket, if_pos h]

/-- What the replacement loop keeps: a full bucket without repetition, and a count of the members
that left. -/
theorem replaceIncumbents_ok {dwelt : String → Except String Bool}
    (hdwelt : ∀ symbol, ∃ complete, dwelt symbol = .ok complete) (leading : List String)
    (limit changes : Nat) (hsize : result.length = 5) (hnodup : result.Nodup) :
    ∃ out, replaceIncumbents dwelt leading limit preferred changes result = .ok out ∧
      out.length = 5 ∧ out.Nodup ∧ (∀ symbol ∈ out, symbol ∈ result ∨ symbol ∈ preferred) ∧
      ∀ current : Finset String, (current \ result.toFinset).card ≤ changes → changes ≤ limit →
        (current \ out.toFinset).card ≤ limit := by
  induction preferred generalizing changes result with
  | nil => exact ⟨result, rfl, hsize, hnodup, fun _ => .inl, fun _ => le_trans⟩
  | cons symbol preferred ih =>
    have hskip : ∃ out, replaceIncumbents dwelt leading limit preferred changes result = .ok out ∧
        out.length = 5 ∧ out.Nodup ∧ (∀ s ∈ out, s ∈ result ∨ s ∈ symbol :: preferred) ∧
        ∀ current : Finset String, (current \ result.toFinset).card ≤ changes → changes ≤ limit →
          (current \ out.toFinset).card ≤ limit := by
      obtain ⟨out, hok, hout, hdistinct, hmem, hcount⟩ := ih changes hsize hnodup
      exact ⟨out, hok, hout, hdistinct,
        fun s hm => (hmem s hm).imp_right (List.mem_cons_of_mem _), hcount⟩
    rw [replaceIncumbents]
    by_cases hpass : symbol ∈ result ∨ limit ≤ changes
    · rw [if_pos hpass]
      exact hskip
    · rw [if_neg hpass]
      obtain ⟨hm, hlimit⟩ := not_or.mp hpass
      obtain ⟨removable, hremovable, hsub⟩ := filterM_total (p := fun incumbent =>
          if incumbent ∈ leading then .ok false else dwelt incumbent) (fun incumbent => by
        split
        · exact ⟨false, rfl⟩
        · exact hdwelt incumbent) result
      simp only [hremovable, bind, Except.bind]
      cases hlast : removable.getLast? with
      | none => exact hskip
      | some last =>
        have hmem : last ∈ result := hsub.subset (List.mem_of_getLast? hlast)
        have hnew : symbol ∉ result.erase last := fun h => hm (List.mem_of_mem_erase h)
        have hlength : (result.erase last ++ [symbol]).length = 5 := by
          rw [List.length_append, List.length_erase_of_mem hmem, hsize, List.length_singleton]
        obtain ⟨out, hok, hout, hdistinct, horigin, hcount⟩ :=
          ih (changes + 1) hlength (nodup_snoc (hnodup.erase last) hnew)
        refine ⟨out, hok, hout, hdistinct, fun s hs => ?_, fun current hcurrent _ => ?_⟩
        · rcases horigin s hs with hs | hs
          · rcases List.mem_append.mp hs with hs | hs
            · exact .inl (List.mem_of_mem_erase hs)
            · exact .inr (List.mem_singleton.mp hs ▸ List.mem_cons_self)
          · exact .inr (List.mem_cons_of_mem _ hs)
        · refine hcount current ?_ (by omega)
          have hstep : current \ (result.erase last ++ [symbol]).toFinset ⊆
              insert last (current \ result.toFinset) := by
            intro s hs
            obtain ⟨hs, hout⟩ := Finset.mem_sdiff.mp hs
            by_cases heq : s = last
            · exact heq ▸ Finset.mem_insert_self _ _
            · refine Finset.mem_insert_of_mem (Finset.mem_sdiff.mpr ⟨hs, fun hin => hout ?_⟩)
              rw [List.mem_toFinset] at hin ⊢
              exact List.mem_append_left _ ((List.mem_erase_of_ne heq).mpr hin)
          exact (Finset.card_le_card hstep).trans
            ((Finset.card_insert_le _ _).trans (Nat.add_le_add_right hcurrent 1))

/-- What a reconciled bucket is made of. -/
structure Reconciled (current preferred forbidden inactive result : List String) : Prop where
  size : result.length = 5
  sorted : result.Pairwise (· < ·)
  allowed : ∀ symbol ∈ result, symbol ∉ forbidden
  origin : ∀ symbol ∈ result, (symbol ∈ current ∧ symbol ∉ inactive) ∨ symbol ∈ preferred

theorem reconcileBucket_ok {current forbidden : List String} (inactive : List String)
    (memberSince : List (String × Datetime)) {effectiveAt : Datetime} {minimumDwell : Timedelta}
    (limit : Nat) (hcurrent : current.Nodup) (hsize : current.length = 5)
    (hdwell : minimumDwell.micros ≤ effectiveAt.micros)
    (henough : 5 ≤ (fromKeys (preferred.filter fun symbol => symbol ∉ forbidden)).length) :
    ∃ bucket, reconcileBucket current preferred forbidden inactive memberSince effectiveAt
      minimumDwell limit = .ok bucket ∧
        Reconciled current preferred forbidden inactive bucket := by
  generalize hkeys : fromKeys (preferred.filter fun symbol => symbol ∉ forbidden) = keys at henough
  generalize hkept : (current.filter fun symbol => symbol ∉ forbidden ∧ symbol ∉ inactive) = kept
  have hkeysNodup : keys.Nodup := hkeys ▸ nodup_fromKeys _
  have hmemKeys : ∀ symbol ∈ keys, symbol ∈ preferred ∧ symbol ∉ forbidden := by
    intro symbol hm
    rw [← hkeys, mem_fromKeys, List.mem_filter] at hm
    exact ⟨hm.1, of_decide_eq_true hm.2⟩
  have hmemKept : ∀ symbol ∈ kept, symbol ∈ current ∧ symbol ∉ forbidden ∧ symbol ∉ inactive := by
    intro symbol hm
    rw [← hkept, List.mem_filter] at hm
    exact ⟨hm.1, of_decide_eq_true hm.2⟩
  have hkeptNodup : kept.Nodup := hkept ▸ hcurrent.filter _
  have hkeptLength : kept.length ≤ 5 := hsize ▸ hkept ▸ List.length_filter_le _ _
  have hfilled : (fillBucket keys kept).length = 5 := by
    refine length_fillBucket hkeysNodup hkeptLength ?_
    have hin : (keys.filter fun symbol => symbol ∈ kept).length ≤ kept.length :=
      length_le_of_subset (hkeysNodup.filter _) fun symbol hm =>
        of_decide_eq_true (List.mem_filter.mp hm).2
    have hsplit := List.length_eq_length_filter_add (l := keys) fun symbol => symbol ∈ kept
    have hnot : (keys.filter fun symbol => !decide (symbol ∈ kept)) =
        keys.filter fun symbol => symbol ∉ kept := by simp
    rw [hnot] at hsplit
    omega
  obtain ⟨out, hok, hout, hnodup, hmem, hcount⟩ := @replaceIncumbents_ok keys _
    (fun incumbent => dwellComplete ((KeyedDict.get id incumbent memberSince).getD
      effectiveAt) effectiveAt minimumDwell)
    (fun _ => dwellComplete_ok hdwell) (keys.take 5) limit 0 hfilled (nodup_fillBucket hkeptNodup)
  have hlimit : ¬ ((5 - kept.length : Int) = 0 ∧
      limit < (current.toFinset \ out.toFinset).card) := by
    intro ⟨hfull, hmany⟩
    -- Without a forced vacancy the bucket starts as it was.
    have hsame : kept = current := by
      have hsub : kept.Sublist current := hkept ▸ List.filter_sublist
      exact hsub.eq_of_length (by omega)
    have := hcount current.toFinset (by
      rw [fillBucket_full (by omega), hsame, Finset.sdiff_self]
      exact Nat.zero_le _) (Nat.zero_le _)
    omega
  refine ⟨sortedSymbols out, ?_, ?_, sorted_sortedSymbols hnodup, ?_, ?_⟩
  · simp only [reconcileBucket, hkeys, hkept, hok, bind, Except.bind, hout, ne_eq, not_true,
      if_false, if_neg hlimit]
    rfl
  · rw [length_sortedSymbols, hout]
  · intro symbol hm
    rcases hmem symbol (mem_sortedSymbols.mp hm) with hm | hm
    · rcases mem_of_mem_fillBucket hm with hm | hm
      · exact (hmemKept symbol hm).2.1
      · exact (hmemKeys symbol hm).2
    · exact (hmemKeys symbol hm).2
  · intro symbol hm
    rcases hmem symbol (mem_sortedSymbols.mp hm) with hm | hm
    · rcases mem_of_mem_fillBucket hm with hm | hm
      · exact .inl ⟨(hmemKept symbol hm).1, (hmemKept symbol hm).2.2⟩
      · exact .inr (hmemKeys symbol hm).1
    · exact .inr (hmemKeys symbol hm).1

end Bucket

/-! ## The core -/

/-- A core of 50 symbols, without inactive ones: members of the old core and of the pool. -/
structure Renewed (old mature inactive core : List String) : Prop where
  size : core.length = 50
  nodup : core.Nodup
  allowed : ∀ symbol ∈ core, symbol ∉ inactive
  origin : ∀ symbol ∈ core, symbol ∈ old ∨ symbol ∈ mature

/-- The core when its first `count` positions have been looked at. -/
structure Replacing (old mature inactive : List String) (count : Nat) (core : List String) :
    Prop where
  size : core.length = 50
  nodup : core.Nodup
  origin : ∀ symbol ∈ core, symbol ∈ old ∨ symbol ∈ mature
  keeps : ∀ symbol ∈ old, symbol ∉ inactive → symbol ∈ core
  seen : ∀ index < count, ∀ symbol, core[index]? = some symbol → symbol ∉ inactive

section Core
variable {old mature inactive core : List String}

theorem takeFirst_some {values forbidden : List String} {value : String}
    (h : takeFirst values forbidden = some value) : value ∈ values ∧ value ∉ forbidden :=
  ⟨List.mem_of_find?_eq_some h, by simpa using List.find?_some h⟩

/-- The mature pool is larger than the core, so that it always has a replacement. -/
theorem takeFirst_ok {count : Nat} (h : Replacing old mature inactive count core)
    (hmature : mature.Nodup) (henough : 55 ≤ mature.length)
    (hactive : ∀ symbol ∈ mature, symbol ∉ inactive) :
    ∃ replacement, takeFirst (mature.filter fun symbol => symbol ∉ old) core =
      some replacement := by
  by_contra hnone
  have hpool : ∀ symbol ∈ mature, symbol ∉ old → symbol ∈ core := by
    intro symbol hm hold
    have hfind := List.find?_eq_none.mp (Option.eq_none_iff_forall_not_mem.mpr fun replacement hr =>
      hnone ⟨replacement, hr⟩) symbol (List.mem_filter.mpr ⟨hm, decide_eq_true hold⟩)
    simpa using hfind
  have hsub : ∀ symbol ∈ mature, symbol ∈ core := by
    intro symbol hm
    by_cases hold : symbol ∈ old
    · exact h.keeps symbol hold (hactive symbol hm)
    · exact hpool symbol hm hold
  have hlength := length_le_of_subset hmature hsub
  have hsize := h.size
  omega

/-- The symbol at the next position trades: it stays. -/
theorem Replacing.kept {count : Nat} {symbol : String}
    (h : Replacing old mature inactive count core) (hat : core[count]? = some symbol)
    (hin : symbol ∉ inactive) : Replacing old mature inactive (count + 1) core := by
  refine ⟨h.size, h.nodup, h.origin, h.keeps, fun index hindex other hother => ?_⟩
  by_cases heq : index = count
  · subst heq
    obtain rfl := Option.some.inj (hat.symm.trans hother)
    exact hin
  · exact h.seen index (by omega) other hother

/-- The symbol at the next position is inactive: a mature one takes its place. -/
theorem Replacing.replaced {count : Nat} {symbol replacement : String}
    (h : Replacing old mature inactive count core) (hat : core[count]? = some symbol)
    (hin : symbol ∈ inactive) (hm : replacement ∈ mature) (hnew : replacement ∉ core)
    (hactive : replacement ∉ inactive) :
    Replacing old mature inactive (count + 1) (replaceFirst core symbol replacement) := by
  refine ⟨?_, nodup_replaceFirst h.nodup hnew, ?_, ?_, ?_⟩
  · rw [length_replaceFirst, h.size]
  · intro other hother
    rcases mem_of_mem_replaceFirst hother with hother | rfl
    · exact h.origin other hother
    · exact .inr hm
  · intro other hother hok
    exact mem_replaceFirst (h.keeps other hother hok) fun heq => hok (heq ▸ hin)
  · intro index hindex other hother
    by_cases heq : index = count
    · subst heq
      have hset : (replaceFirst core symbol replacement)[index]? = some replacement := by
        have hidx : core.idxOf symbol = index := by
          obtain ⟨hlt, heq⟩ := List.getElem?_eq_some_iff.mp hat
          rw [← heq]
          exact h.nodup.idxOf_getElem index hlt
        obtain ⟨hlt, -⟩ := List.getElem?_eq_some_iff.mp hat
        rw [replaceFirst, hidx, List.getElem?_set_self hlt]
      obtain rfl := Option.some.inj (hset.symm.trans hother)
      exact hactive
    · rw [getElem?_replaceFirst h.nodup hat index heq] at hother
      exact h.seen index (by omega) other hother

theorem itemAt_eq_ok {values : List String} {index : Nat} {value : String}
    (h : itemAt values index = .ok value) : values[index]? = some value := by
  unfold itemAt at h
  split at h
  · rename_i found hfound
    rw [hfound, Except.ok.inj h]
  · cases h

theorem replaceInactive_ok (hold : Renewed old mature [] old) (hmature : mature.Nodup)
    (henough : 55 ≤ mature.length) (hactive : ∀ symbol ∈ mature, symbol ∉ inactive) :
    ∃ core, replaceInactive inactive (mature.filter fun symbol => symbol ∉ old) old = .ok core ∧
      Renewed old mature inactive core := by
  have hrun : ∃ core,
      replaceInactive inactive (mature.filter fun symbol => symbol ∉ old) old = .ok core ∧
        Replacing old mature inactive 50 core := by
    unfold replaceInactive
    rw [hold.size]
    apply foldlM_range_total
    · exact ⟨hold.size, hold.nodup, fun _ => .inl, fun _ hm _ => hm, by simp⟩
    · intro count hcount core h
      have hlt : count < core.length := by rw [h.size]; omega
      obtain ⟨symbol, hitem⟩ : ∃ symbol, itemAt core count = .ok symbol := ⟨_, itemAt_ok hlt⟩
      have hat := itemAt_eq_ok hitem
      apply exists_bind hitem
      by_cases hin : symbol ∈ inactive
      · obtain ⟨replacement, hreplacement⟩ := takeFirst_ok h hmature henough hactive
        obtain ⟨hm, hnew⟩ := takeFirst_some hreplacement
        have hm : replacement ∈ mature := (List.mem_filter.mp hm).1
        simp only [if_pos hin, hreplacement]
        exact ⟨_, rfl, h.replaced hat hin hm hnew (hactive _ hm)⟩
      · rw [if_neg hin]
        exact ⟨core, rfl, h.kept hat hin⟩
  obtain ⟨core, hok, h⟩ := hrun
  refine ⟨core, hok, h.size, h.nodup, fun symbol hm => ?_, h.origin⟩
  obtain ⟨index, hlt, heq⟩ := List.getElem_of_mem hm
  exact h.seen index (h.size ▸ hlt) symbol (List.getElem?_eq_some_iff.mpr ⟨hlt, heq⟩)

theorem rotateCore_ok (policy : RollingPolicy) (ranks : List (String × Nat))
    {dwelt : String → Except String Bool} (hdwelt : ∀ symbol, ∃ complete, dwelt symbol = .ok complete)
    {promotable : List String} (hdistinct : promotable.Nodup)
    (hpromotable : ∀ symbol ∈ promotable, symbol ∈ mature ∧ symbol ∉ core ∧ symbol ∉ inactive)
    (h : Renewed old mature inactive core) (changes : Nat) :
    ∃ out, rotateCore policy ranks dwelt promotable changes core = .ok out ∧
      Renewed old mature inactive out := by
  induction promotable generalizing changes core with
  | nil => exact ⟨core, rfl, h⟩
  | cons challenger promotable ih =>
    obtain ⟨hchallenger, hrest⟩ := List.nodup_cons.mp hdistinct
    obtain ⟨hmature, hnew, hactive⟩ := hpromotable challenger List.mem_cons_self
    rw [rotateCore]
    split
    · exact ⟨core, rfl, h⟩
    · obtain ⟨removable, hremovable, hsub⟩ := filterM_total (p := fun symbol =>
          if policy.coreRetainRank < rankOrLast ranks symbol then dwelt symbol else .ok false)
          (fun symbol => by
            split
            · exact hdwelt symbol
            · exact ⟨false, rfl⟩) core
      simp only [hremovable, bind, Except.bind]
      split
      · exact ⟨core, rfl, h⟩
      · rename_i incumbent _
        split
        · exact ⟨core, rfl, h⟩
        · refine ih hrest (fun symbol hm => ?_) ⟨?_, nodup_replaceFirst h.nodup hnew, ?_, ?_⟩ _
          · obtain ⟨hmature, hout, hactive⟩ := hpromotable symbol (List.mem_cons_of_mem _ hm)
            refine ⟨hmature, fun hin => ?_, hactive⟩
            rcases mem_of_mem_replaceFirst hin with hin | rfl
            · exact hout hin
            · exact hchallenger hm
          · rw [length_replaceFirst, h.size]
          · intro symbol hm
            rcases mem_of_mem_replaceFirst hm with hm | rfl
            · exact h.allowed symbol hm
            · exact hactive
          · intro symbol hm
            rcases mem_of_mem_replaceFirst hm with hm | rfl
            · exact h.origin symbol hm
            · exact .inr hmature

end Core

/-! ## The pools -/

/-- The numbers of a row stay inside the decimal context when rows are ranked and compared. -/
structure MarketRow.Moderate (row : MarketRow) : Prop where
  activity : ActivitySeries.Moderate ⟨row.history.marketVolumes, row.history.marketTrades⟩
  metrics : ∀ number : Rat, (number : MetricValue) ∈ [(row.history.q25QuoteVolume : MetricValue),
    (row.history.q25Trades : MetricValue), row.thinDepth10bps, row.thinDepth50bps] →
      |number| ≤ largestPower

def MarketEvidence.Moderate (evidence : MarketEvidence) : Prop :=
  ∀ row ∈ evidence.rows, row.Moderate

section Pools
variable (evidence : MarketEvidence) (policy : RollingPolicy)

theorem nodup_rows : (evidence.rows.map MarketRow.symbol).Nodup :=
  evidence.distinct.sublist evidence.listed

theorem eligible_of_row {row : MarketRow} (h : row ∈ evidence.rows) :
    row.symbol ∈ evidence.eligible :=
  evidence.listed.subset (List.mem_map_of_mem h)

theorem rankMarketRows_outcome {moderate : Prop} {rows : List MarketRow}
    (h : moderate → ∀ row ∈ rows, row.Moderate) :
    Outcome (fun ranked => ranked.Perm rows) (Overflows moderate) (rankMarketRows rows) := by
  refine rankCrossSection_outcome (List.cons_ne_nil _ _) fun metric hmetric hdescending row hrow => ?_
  apply contextNumber_outcome
  intro hmoderate number hnumber
  apply (h hmoderate row hrow).metrics number
  simp only [List.mem_cons, List.not_mem_nil, or_false] at hmetric ⊢
  rcases hmetric with rfl | rfl | rfl | rfl | rfl
  · exact .inl (WithBot.coe_inj.mp hnumber.symm)
  · exact .inr (.inl (WithBot.coe_inj.mp hnumber.symm))
  · exact .inr (.inr (.inl (WithBot.coe_inj.mp hnumber.symm)))
  · exact .inr (.inr (.inr (WithBot.coe_inj.mp hnumber.symm)))
  · cases hdescending

/-- What is in the mature pool. -/
structure MaturePool (mature : List MarketRow) : Prop where
  nodup : (mature.map MarketRow.symbol).Nodup
  mem_iff : ∀ row, row ∈ mature ↔ row ∈ evidence.rows ∧ row.Mature policy ∧ row.Complete policy

theorem maturePool_outcome : Outcome (MaturePool evidence policy) (Overflows evidence.Moderate)
    (maturePool evidence.rows policy) := by
  refine (rankMarketRows_outcome fun h row hm => h row (List.mem_of_mem_filter hm)).mono
    (fun mature hperm => ⟨?_, fun row => ?_⟩) fun _ he => he
  · rw [(hperm.map _).nodup_iff]
    exact (nodup_rows evidence).sublist (List.filter_sublist.map _)
  · rw [hperm.mem_iff, List.mem_filter, decide_eq_true_eq]

structure ProbePool (probes : List MarketRow) : Prop where
  nodup : (probes.map MarketRow.symbol).Nodup
  rows : ∀ row ∈ probes, row ∈ evidence.rows

theorem probePool_outcome : Outcome (ProbePool evidence) (Overflows evidence.Moderate)
    (probePool evidence.rows policy) := by
  have hrank : ∀ age : MarketRow → Bool, Outcome (fun ranked => ranked.Perm
      ((evidence.rows.filter fun row => row.Observed policy ∧ row.Complete policy).filter age))
      (Overflows evidence.Moderate) (rankMarketRows
        ((evidence.rows.filter fun row => row.Observed policy ∧ row.Complete policy).filter age)) :=
    fun age => rankMarketRows_outcome fun h row hm =>
      h row (List.mem_of_mem_filter (List.mem_of_mem_filter hm))
  refine (hrank _).bind fun recent _ hperm => (hrank _).bind fun fallback _ hperm' => ?_
  have hpool : (recent ++ fallback).Perm
      (evidence.rows.filter fun row => row.Observed policy ∧ row.Complete policy) := by
    refine (hperm.append hperm').trans (List.Perm.trans (List.Perm.of_eq ?_)
      (List.filter_append_perm (fun row => row.ageDays < policy.coreMinimumAgeDays) _))
    simp only [← not_lt, decide_not]
  constructor
  · rw [(hpool.map _).nodup_iff]
    exact (nodup_rows evidence).sublist (List.filter_sublist.map _)
  · intro row hm
    exact List.mem_of_mem_filter (hpool.mem_iff.mp hm)

theorem marketContext_outcome (h : policy.Admitted) :
    Outcome (fun _ => True) (Overflows evidence.Moderate) (marketContext evidence.rows policy) := by
  have hdays := h.marketContextBaselineDays
  have hminimum := h.marketContextMinimumInstruments
  refine evaluateMarketContext_outcome _ (by omega) h.marketContextChangeRatio (by omega) ?_
  intro hmoderate series hm
  obtain ⟨row, hrow, rfl⟩ := List.mem_map.mp hm
  exact (hmoderate row hrow).activity

theorem not_inactive {row : MarketRow} (h : row ∈ evidence.rows) (tracked : List String) :
    row.symbol ∉ evidence.inactive tracked := by
  rw [MarketEvidence.inactive, mem_sortedSymbols, List.mem_filter]
  intro hm
  exact of_decide_eq_true hm.2 (eligible_of_row evidence h)

/-- A symbol with a rank is found. -/
theorem rankOf_poolRanks {ranked : List String} {symbol : String} (h : symbol ∈ ranked) :
    ∃ rank, rankOf (poolRanks ranked) symbol = .ok rank := by
  refine rankOf_ok ?_
  rw [poolRanks, List.zipIdx_map_fst]
  exact h

end Pools

/-! ## The selection -/

section Select
variable {active : UniverseDecision} {evidence : MarketEvidence} {effectiveAt : Datetime}
  {policy : RollingPolicy} {mature : List MarketRow}

theorem mem_members {symbol : String} :
    symbol ∈ active.members ↔ symbol ∈ active.core ++ active.boundary ++ active.probe :=
  mem_sortedSymbols

/-- The roles of the active decision. -/
def SelectionResult.KeepsActive (result : SelectionResult) (active : UniverseDecision) : Prop :=
  result.core = active.core ∧ result.boundary = active.boundary ∧ result.probe = active.probe

/-- 60 distinct symbols in sorted roles, none of them inactive, with entrants from the pools. -/
structure SelectionResult.WellFormed (result : SelectionResult) (active : UniverseDecision)
    (mature probes : List MarketRow) : Prop where
  sizes : result.core.length = 50 ∧ result.boundary.length = 5 ∧ result.probe.length = 5
  sorted : result.core.Pairwise (· < ·) ∧ result.boundary.Pairwise (· < ·) ∧
    result.probe.Pairwise (· < ·)
  distinct : (result.core ++ result.boundary ++ result.probe).Nodup
  trading : ∀ symbol ∈ result.core ++ result.boundary ++ result.probe, symbol ∉ result.inactive
  core : ∀ symbol ∈ result.core, symbol ∉ active.core → ∃ row ∈ mature, row.symbol = symbol
  boundary : ∀ symbol ∈ result.boundary, symbol ∉ active.boundary →
    ∃ row ∈ mature, row.symbol = symbol
  probe : ∀ symbol ∈ result.probe, symbol ∉ active.probe → ∃ row ∈ probes, row.symbol = symbol

theorem selectCore_ok (coreSince : List (String × Datetime)) (allowNormalChanges : Bool)
    (hdays : policy.coreMinimumDwellDays * 86400000000 ≤ effectiveAt.micros)
    {symbols : List String} (hsymbols : symbols.Nodup) (henough : 55 ≤ symbols.length)
    (hactive : ∀ symbol ∈ symbols, symbol ∉ evidence.inactive active.members) :
    ∃ core, selectCore active evidence effectiveAt coreSince policy allowNormalChanges symbols =
      .ok core ∧ Renewed active.core symbols (evidence.inactive active.members) core := by
  have hold : Renewed active.core symbols [] active.core :=
    ⟨active.sizes.1, active.sorted.1.imp fun h => h.ne, by simp, fun _ => .inl⟩
  obtain ⟨core, hcore, hrenewed⟩ := replaceInactive_ok hold hsymbols henough hactive
  refine exists_bind hcore ?_
  split
  · obtain ⟨required, hrequired, hle⟩ := ofDays_ok hdays
    refine rotateCore_ok policy _ (fun symbol => ?_) ((hsymbols.filter _).filter _) ?_ hrenewed _
    · exact bind_total ⟨required, hrequired⟩ fun required' hrequired' =>
        dwellComplete_ok (Except.ok.inj (hrequired.symm.trans hrequired') ▸ hle)
    · intro symbol hm
      obtain ⟨hm, hnew⟩ := List.mem_filter.mp hm
      have hm : symbol ∈ symbols := (List.mem_filter.mp hm).1
      exact ⟨hm, (of_decide_eq_true hnew).1, hactive symbol hm⟩
  · exact ⟨core, rfl, hrenewed⟩

theorem length_fromKeys {ranked preferred forbidden : List String} (hranked : ranked.Nodup)
    (h : ∀ symbol ∈ ranked, symbol ∈ preferred ∧ symbol ∉ forbidden) :
    ranked.length ≤ (fromKeys (preferred.filter fun symbol => symbol ∉ forbidden)).length := by
  refine length_le_of_subset hranked fun symbol hm => ?_
  rw [mem_fromKeys, List.mem_filter, decide_eq_true_eq]
  exact h symbol hm

theorem selectProbe_ok (memberSince : List (String × Datetime)) (allowNormalChanges : Bool)
    (hhours : policy.candidateMinimumDwellHours * 3600000000 ≤ effectiveAt.micros)
    {core preferred : List String} (hpreferred : preferred.Nodup) (henough : 5 ≤ preferred.length)
    (hnew : ∀ symbol ∈ preferred, symbol ∉ core) :
    ∃ probe, selectProbe active evidence effectiveAt memberSince policy allowNormalChanges core
      preferred = .ok probe ∧
        Reconciled active.probe preferred core (evidence.inactive active.members) probe := by
  obtain ⟨required, hrequired, hle⟩ := ofHours_ok hhours
  refine exists_bind hrequired ?_
  exact reconcileBucket_ok _ memberSince _ (active.sorted.2.2.imp fun h => h.ne)
    active.sizes.2.2 hle (henough.trans (length_fromKeys hpreferred fun symbol hm =>
      ⟨hm, hnew symbol hm⟩))

/-- The lookup `boundary_rank[symbol]` finds every protected symbol. -/
theorem protectedBoundary_ok {core probe ranked : List String}
    (hranked : ∀ symbol ∈ active.boundary, symbol ∉ evidence.inactive active.members →
      symbol ∉ core → symbol ∉ probe → symbol ∈ ranked) :
    ∃ kept, protectedBoundary active evidence policy core probe ranked = .ok kept ∧
      ∀ symbol ∈ kept, symbol ∈ active.boundary ∧
        symbol ∉ evidence.inactive active.members := by
  generalize hkept : (active.boundary.filter fun symbol =>
    symbol ∉ evidence.inactive active.members ∧ symbol ∉ core ∧ symbol ∉ probe ∧
      rankOrLast (poolRanks ranked) symbol ≤ policy.boundaryRetainRank) = kept
  have hmem : ∀ symbol ∈ kept, symbol ∈ active.boundary ∧
      symbol ∉ evidence.inactive active.members ∧ symbol ∈ ranked := by
    intro symbol hm
    rw [← hkept, List.mem_filter, decide_eq_true_eq] at hm
    obtain ⟨hm, hactive, hcore, hprobe, -⟩ := hm
    exact ⟨hm, hactive, hranked symbol hm hactive hcore hprobe⟩
  have hkey : ∀ symbol ∈ kept, ∃ keyed, (do
      let rank ← rankOf (poolRanks ranked) symbol
      return (rank, symbol) : Except String (Nat × String)) = .ok keyed ∧ keyed.2 = symbol := by
    intro symbol hm
    obtain ⟨rank, hrank⟩ := rankOf_poolRanks (hmem symbol hm).2.2
    exact ⟨(rank, symbol), by rw [hrank]; rfl, rfl⟩
  obtain ⟨keyed, hkeyed⟩ := mapM_total fun symbol hm => (hkey symbol hm).imp fun _ h => h.1
  have hsame : keyed.map Prod.snd = kept := by
    refine (map_eq_of_forall₂ (f := id) (forall₂_of_mapM_ok hkeyed)
      fun symbol key hm hok => ?_).symm.trans (List.map_id kept)
    obtain ⟨key', hok', hsnd⟩ := hkey symbol hm
    obtain rfl := Except.ok.inj (hok'.symm.trans hok)
    exact hsnd.symm
  refine ⟨(keyed.insertionSort fun a b => a.1 ≤ b.1).map Prod.snd, ?_, fun symbol hm => ?_⟩
  · unfold protectedBoundary
    rw [hkept]
    exact congrArg (fun r : Except String (List (Nat × String)) => r >>= fun keyed =>
      Except.ok ((keyed.insertionSort fun a b => a.1 ≤ b.1).map Prod.snd)) hkeyed
  · have hm : symbol ∈ kept := by
      rw [← hsame]
      exact ((List.perm_insertionSort _ _).map Prod.snd).mem_iff.mp hm
    exact ⟨(hmem symbol hm).1, (hmem symbol hm).2.1⟩

theorem selectBoundary_ok (memberSince : List (String × Datetime)) (allowNormalChanges : Bool)
    (hhours : policy.candidateMinimumDwellHours * 3600000000 ≤ effectiveAt.micros)
    {core probe ranked : List String} (hnodup : ranked.Nodup) (henough : 5 ≤ ranked.length)
    (hnew : ∀ symbol ∈ ranked, symbol ∉ core ++ probe)
    (hranked : ∀ symbol ∈ active.boundary, symbol ∉ evidence.inactive active.members →
      symbol ∉ core → symbol ∉ probe → symbol ∈ ranked) :
    ∃ boundary, selectBoundary active evidence effectiveAt memberSince policy allowNormalChanges
      core probe ranked = .ok boundary ∧ boundary.length = 5 ∧ boundary.Pairwise (· < ·) ∧
        (∀ symbol ∈ boundary, symbol ∉ core ++ probe) ∧
        ∀ symbol ∈ boundary, (symbol ∈ active.boundary ∧
          symbol ∉ evidence.inactive active.members) ∨ symbol ∈ ranked := by
  obtain ⟨kept, hkept, hmem⟩ := @protectedBoundary_ok _ _ policy _ _ _ hranked
  obtain ⟨required, hrequired, hle⟩ := ofHours_ok hhours
  refine exists_bind hkept (exists_bind hrequired ?_)
  obtain ⟨boundary, hok, h⟩ := @reconcileBucket_ok (kept ++ ranked) _
    (core ++ probe) (evidence.inactive active.members) memberSince _ _
    (if allowNormalChanges then max 1 (policy.candidateDailyReplacements - 1) else 0)
    (active.sorted.2.1.imp fun h => h.ne) active.sizes.2.1 hle
    (henough.trans (length_fromKeys hnodup fun symbol hm =>
      ⟨List.mem_append_right _ hm, hnew symbol hm⟩))
  refine ⟨boundary, hok, h.size, h.sorted, h.allowed, fun symbol hm => ?_⟩
  rcases h.origin symbol hm with hold | hm
  · exact .inl hold
  · exact (List.mem_append.mp hm).imp_left (hmem symbol)

/-- Without incomplete evidence the active boundary is in the mature pool. -/
theorem mature_of_boundary (hcomplete : incompleteActive active evidence policy = [])
    (hmature : MaturePool evidence policy mature)
    {symbol : String} (hm : symbol ∈ active.boundary)
    (hactive : symbol ∉ evidence.inactive active.members) :
    symbol ∈ mature.map MarketRow.symbol := by
  have hmember : symbol ∈ active.members := by
    rw [mem_members]
    simp [hm]
  have hnot : ¬ Incomplete active evidence policy symbol := by
    intro hincomplete
    have : symbol ∈ incompleteActive active evidence policy := by
      rw [incompleteActive, mem_sortedSymbols, List.mem_filter, decide_eq_true_eq]
      exact ⟨hmember, hactive, hincomplete⟩
    rw [hcomplete] at this
    cases this
  unfold Incomplete at hnot
  split at hnot
  · exact absurd trivial hnot
  · rename_i row hrow
    obtain ⟨hrowComplete, hrest⟩ := not_or.mp hnot
    have hrowMature : row.Mature policy := by
      by_contra hmature
      exact hrest (.inl ⟨by simp [hm], hmature⟩)
    have hsymbol : row.symbol = symbol := by simpa using List.find?_some hrow
    refine List.mem_map.mpr ⟨row, (hmature.mem_iff row).mpr ⟨?_, hrowMature, not_not.mp hrowComplete⟩,
      hsymbol⟩
    exact List.mem_of_find?_eq_some hrow

/-- What the three roles were filled with. -/
structure RolesFilled (active : UniverseDecision) (evidence : MarketEvidence)
    (mature probes : List MarketRow) (core probe boundary : List String) : Prop where
  renewed : Renewed active.core (mature.map MarketRow.symbol) (evidence.inactive active.members) core
  ofProbe : Reconciled active.probe
    ((probes.map MarketRow.symbol).filter fun symbol => symbol ∉ core) core
    (evidence.inactive active.members) probe
  ofBoundary : Reconciled active.boundary (mature.map MarketRow.symbol) (core ++ probe)
    (evidence.inactive active.members) boundary

theorem RolesFilled.wellFormed {probes : List MarketRow} {core probe boundary : List String}
    (h : RolesFilled active evidence mature probes core probe boundary)
    (hmature : ∀ row ∈ mature, row ∈ evidence.rows) (hprobes : ∀ row ∈ probes, row ∈ evidence.rows)
    {result : SelectionResult} (hcore : result.core = sortedSymbols core)
    (hboundary : result.boundary = sortedSymbols boundary)
    (hprobe : result.probe = sortedSymbols probe)
    (hinactive : result.inactive = sortedSymbols (evidence.inactive active.members)) :
    result.WellFormed active mature probes := by
  have htrading : ∀ {rows : List MarketRow}, (∀ row ∈ rows, row ∈ evidence.rows) →
      ∀ symbol ∈ rows.map MarketRow.symbol, symbol ∉ evidence.inactive active.members := by
    intro rows hrows symbol hm
    obtain ⟨row, hrow, rfl⟩ := List.mem_map.mp hm
    exact not_inactive evidence (hrows row hrow) _
  have hprobeNodup : probe.Nodup := h.ofProbe.sorted.imp fun h => h.ne
  have hboundaryNodup : boundary.Nodup := h.ofBoundary.sorted.imp fun h => h.ne
  constructor
  · rw [hcore, hboundary, hprobe, length_sortedSymbols, length_sortedSymbols, length_sortedSymbols]
    exact ⟨h.renewed.size, h.ofBoundary.size, h.ofProbe.size⟩
  · rw [hcore, hboundary, hprobe]
    exact ⟨sorted_sortedSymbols h.renewed.nodup, sorted_sortedSymbols hboundaryNodup,
      sorted_sortedSymbols hprobeNodup⟩
  · rw [hcore, hboundary, hprobe]
    refine List.nodup_append.mpr ⟨List.nodup_append.mpr ⟨nodup_sortedSymbols h.renewed.nodup,
      nodup_sortedSymbols hboundaryNodup, ?_⟩, nodup_sortedSymbols hprobeNodup, ?_⟩
    · intro symbol hm other hother heq
      rw [mem_sortedSymbols] at hm hother
      exact h.ofBoundary.allowed other hother (List.mem_append_left _ (heq ▸ hm))
    · intro symbol hm other hother heq
      rw [mem_sortedSymbols] at hother
      rcases List.mem_append.mp hm with hm | hm
      · exact h.ofProbe.allowed other hother (heq ▸ mem_sortedSymbols.mp hm)
      · exact h.ofBoundary.allowed symbol (mem_sortedSymbols.mp hm)
          (List.mem_append_right _ (heq ▸ hother))
  · rw [hcore, hboundary, hprobe, hinactive]
    intro symbol hm
    rw [mem_sortedSymbols]
    rcases List.mem_append.mp hm with hm | hm
    · rcases List.mem_append.mp hm with hm | hm
      · exact h.renewed.allowed symbol (mem_sortedSymbols.mp hm)
      · rcases h.ofBoundary.origin symbol (mem_sortedSymbols.mp hm) with ⟨-, hstays⟩ | hranked
        · exact hstays
        · exact htrading hmature symbol hranked
    · rcases h.ofProbe.origin symbol (mem_sortedSymbols.mp hm) with ⟨-, hstays⟩ | hpreferred
      · exact hstays
      · exact htrading hprobes symbol (List.mem_of_mem_filter hpreferred)
  · intro symbol hm hnew
    rw [hcore, mem_sortedSymbols] at hm
    exact List.mem_map.mp ((h.renewed.origin symbol hm).resolve_left hnew)
  · intro symbol hm hnew
    rw [hboundary, mem_sortedSymbols] at hm
    exact List.mem_map.mp ((h.ofBoundary.origin symbol hm).resolve_left fun hold => hnew hold.1)
  · intro symbol hm hnew
    rw [hprobe, mem_sortedSymbols] at hm
    exact List.mem_map.mp (List.mem_of_mem_filter
      ((h.ofProbe.origin symbol hm).resolve_left fun hold => hnew hold.1))

/-- From the pools and the context on, the selection returns. -/
theorem selected_of_pools {memberSince coreSince : List (String × Datetime)}
    {probes : List MarketRow} {context : MarketContext}
    (hhours : policy.candidateMinimumDwellHours * 3600000000 ≤ effectiveAt.micros)
    (hdays : policy.coreMinimumDwellDays * 86400000000 ≤ effectiveAt.micros)
    (hmature : maturePool evidence.rows policy = .ok mature) (hpool : MaturePool evidence policy mature)
    (hprobes : probePool evidence.rows policy = .ok probes) (hprobePool : ProbePool evidence probes)
    (hcontext : marketContext evidence.rows policy = .ok context) :
    ∃ result, selectRollingUniverse active evidence effectiveAt memberSince coreSince policy =
      .ok result ∧ (result.KeepsActive active ∨ result.WellFormed active mature probes) := by
  have hkeeps : ∀ {probeCount reason}, ∃ result, (pure (preserveActive active evidence
      mature.length probeCount context reason) : Except String SelectionResult) = .ok result ∧
      (result.KeepsActive active ∨ result.WellFormed active mature probes) :=
    ⟨_, rfl, .inl ⟨rfl, rfl, rfl⟩⟩
  refine exists_bind hmature (exists_bind hprobes (exists_bind hcontext ?_))
  dsimp only
  split
  · exact hkeeps
  rename_i hcomplete
  split
  · exact hkeeps
  rename_i hreserve
  split
  · exact hkeeps
  have henough : 55 ≤ (mature.map MarketRow.symbol).length := by
    rw [List.length_map]
    omega
  have hrows : ∀ row ∈ mature, row ∈ evidence.rows := fun row hm => ((hpool.mem_iff row).mp hm).1
  have hactive : ∀ symbol ∈ mature.map MarketRow.symbol,
      symbol ∉ evidence.inactive active.members := by
    intro symbol hm
    obtain ⟨row, hrow, rfl⟩ := List.mem_map.mp hm
    exact not_inactive evidence (hrows row hrow) _
  obtain ⟨core, hcore, hrenewed⟩ := selectCore_ok coreSince (freezeReason policy context).isNone
    hdays hpool.nodup henough hactive
  refine exists_bind hcore ?_
  split
  · exact hkeeps
  rename_i hprobeReserve
  have hpreferred : ((probes.map MarketRow.symbol).filter fun symbol => symbol ∉ core).Nodup :=
    hprobePool.nodup.filter _
  obtain ⟨probe, hprobe, hbucket⟩ := selectProbe_ok memberSince
    (freezeReason policy context).isNone hhours hpreferred (not_lt.mp hprobeReserve)
    fun symbol hm => of_decide_eq_true (List.mem_filter.mp hm).2
  refine exists_bind hprobe ?_
  split
  · exact hkeeps
  rename_i hboundaryReserve
  have hboundaryRanked : ∀ symbol ∈ active.boundary, symbol ∉ evidence.inactive active.members →
      symbol ∉ core → symbol ∉ probe →
      symbol ∈ (mature.map MarketRow.symbol).filter fun symbol => symbol ∉ core ∧ symbol ∉ probe := by
    intro symbol hm htrading hcore hprobe
    rw [List.mem_filter, decide_eq_true_eq]
    exact ⟨mature_of_boundary (not_not.mp hcomplete) hpool hm htrading, hcore, hprobe⟩
  obtain ⟨boundary, hboundary, hsize, hsorted, hallowed, horigin⟩ := selectBoundary_ok memberSince
    (freezeReason policy context).isNone hhours (hpool.nodup.filter _)
    (not_lt.mp hboundaryReserve) (fun symbol hm => by
      obtain ⟨hcore, hprobe⟩ := of_decide_eq_true (List.mem_filter.mp hm).2
      simp [hcore, hprobe]) hboundaryRanked
  have hfilled : RolesFilled active evidence mature probes core probe boundary :=
    ⟨hrenewed, hbucket, hsize, hsorted, hallowed, fun symbol hm =>
      (horigin symbol hm).imp_right List.mem_of_mem_filter⟩
  exact exists_bind hboundary
    ⟨_, rfl, .inr (hfilled.wellFormed hrows hprobePool.rows rfl rfl rfl rfl)⟩

/-- The selection returns, and keeps the active universe or forms a new one from the pools, unless
an operation on numbers that are not moderate overflows. -/
theorem selectRollingUniverse_total (active : UniverseDecision) (evidence : MarketEvidence)
    (effectiveAt : Datetime) (memberSince coreSince : List (String × Datetime))
    (policy : RollingPolicy) (hpolicy : policy.Admitted)
    (hhours : policy.candidateMinimumDwellHours * 3600000000 ≤ effectiveAt.micros)
    (hdays : policy.coreMinimumDwellDays * 86400000000 ≤ effectiveAt.micros) :
    (∃ mature probes result, maturePool evidence.rows policy = .ok mature ∧
      probePool evidence.rows policy = .ok probes ∧
      selectRollingUniverse active evidence effectiveAt memberSince coreSince policy =
        .ok result ∧ (result.KeepsActive active ∨ result.WellFormed active mature probes)) ∨
    (¬ evidence.Moderate ∧
      selectRollingUniverse active evidence effectiveAt memberSince coreSince policy =
        .error "decimal.Overflow") := by
  rcases outcome_iff.mp (maturePool_outcome evidence policy) with
    ⟨mature, hmature, hpool⟩ | ⟨_, hraised, rfl, hlarge⟩
  swap
  · exact .inr ⟨hlarge, bind_error hraised⟩
  rcases outcome_iff.mp (probePool_outcome evidence policy) with
    ⟨probes, hprobes, hprobePool⟩ | ⟨_, hraised, rfl, hlarge⟩
  swap
  · exact .inr ⟨hlarge, bind_eq hmature (bind_error hraised)⟩
  rcases outcome_iff.mp (marketContext_outcome evidence policy hpolicy) with
    ⟨context, hcontext, -⟩ | ⟨_, hraised, rfl, hlarge⟩
  swap
  · exact .inr ⟨hlarge, bind_eq hmature (bind_eq hprobes (bind_error hraised))⟩
  obtain ⟨result, hok, h⟩ := @selected_of_pools active evidence effectiveAt policy mature
    memberSince coreSince probes context hhours hdays hmature hpool hprobes hprobePool hcontext
  exact .inl ⟨mature, probes, result, hmature, hprobes, hok, h⟩

end Select

/-! ## A day with one inactive probe -/

section Sample

def sampleSymbol (index : Nat) : String :=
  String.ofList ['S', '0', Char.ofNat (48 + index / 10), Char.ofNat (48 + index % 10),
    'U', 'S', 'D', 'T']

def sampleSymbols (start count : Nat) : List String := (List.range' start count).map sampleSymbol

theorem sampleSymbols_sorted : (sampleSymbols 0 60).Pairwise (· < ·) :=
  List.isChain_iff_pairwise.mp (by decide +kernel)

theorem sampleSymbols_append (a b : Nat) :
    sampleSymbols 0 a ++ sampleSymbols a b = sampleSymbols 0 (a + b) := by
  have h := @List.range'_append 0 a b 1
  rw [Nat.one_mul, Nat.zero_add] at h
  rw [sampleSymbols, sampleSymbols, sampleSymbols, ← List.map_append, h]

def sampleActive : UniverseDecision where
  effectiveAt := ⟨739844 * 86400000000, by decide⟩
  core := sampleSymbols 0 50
  boundary := sampleSymbols 50 5
  probe := sampleSymbols 55 5
  sizes := ⟨rfl, rfl, rfl⟩
  sorted := by
    have h := sampleSymbols_sorted
    rw [← sampleSymbols_append 55 5, ← sampleSymbols_append 50 5, List.pairwise_append,
      List.pairwise_append] at h
    exact ⟨h.1.1, h.1.2.1, h.2.1⟩
  distinct := by
    rw [sampleSymbols_append, sampleSymbols_append]
    exact sampleSymbols_sorted.imp fun h => h.ne

def sampleRow (index : Nat) : MarketRow where
  history := {
    symbol := sampleSymbol index
    ageDays := 100
    volumes := List.replicate 14 1
    marketVolumes := []
    marketTrades := []
    expectedProbeDays := 14
    observedProbeDays := 14
    q25QuoteVolume := 1
    q25Trades := 1 }
  depthSampleCount := 3
  thinDepth10bps := (1 : Rat)
  thinDepth50bps := (1 : Rat)
  bookTickerSampleCount := 21
  spreadQ95Bps := (1 : Rat)

/-- Every symbol but the last has all the evidence. -/
def sampleEvidence : MarketEvidence where
  eligible := sampleSymbols 0 59
  rows := (List.range' 0 59).map sampleRow
  distinct := by
    have h := sampleSymbols_sorted
    rw [← sampleSymbols_append 59 1, List.pairwise_append] at h
    exact h.1.imp fun h => h.ne
  listed := by
    rw [List.map_map]
    exact .refl _

/-- The next midnight, a Tuesday. -/
def sampleMidnight : Datetime := ⟨739845 * 86400000000, by decide⟩

/-- A dwell of a billion days. -/
def longDwell : RollingPolicy := { candidateMinimumDwellHours := 24000000000 }

theorem admitted_longDwell : longDwell.Admitted := by
  constructor <;> norm_num [longDwell]

theorem admitted_default : RollingPolicy.Admitted {} := by
  constructor <;> norm_num

theorem mem_sampleRows {row : MarketRow} (h : row ∈ sampleEvidence.rows) :
    ∃ index, row = sampleRow index := by
  obtain ⟨index, -, rfl⟩ := List.mem_map.mp h
  exact ⟨index, rfl⟩

theorem one_le_largestPower : (1 : Rat) ≤ largestPower := one_le_zpow₀ (by norm_num) (by decide)

theorem sampleRow_moderate (index : Nat) : (sampleRow index).Moderate where
  activity := fun value hm => absurd hm List.not_mem_nil
  metrics := by
    intro number hm
    have hone : number = 1 := by
      simp only [sampleRow, List.mem_cons, List.not_mem_nil, or_false, or_self] at hm
      exact_mod_cast hm
    rw [hone, abs_one]
    exact one_le_largestPower

theorem sampleEvidence_moderate : sampleEvidence.Moderate := by
  intro row hm
  obtain ⟨index, rfl⟩ := mem_sampleRows hm
  exact sampleRow_moderate index

theorem selectRollingUniverse_total_sample : ∃ mature probes result,
    maturePool sampleEvidence.rows {} = .ok mature ∧ probePool sampleEvidence.rows {} = .ok probes ∧
      selectRollingUniverse sampleActive sampleEvidence sampleMidnight [] [] {} = .ok result ∧
      (result.KeepsActive sampleActive ∨ result.WellFormed sampleActive mature probes) := by
  cases selectRollingUniverse_total sampleActive sampleEvidence sampleMidnight [] [] {}
    admitted_default (by decide) (by decide) with
  | inl hreturns => exact hreturns
  | inr hraises => exact absurd sampleEvidence_moderate hraises.1

theorem sampleRow_mature (index : Nat) : (sampleRow index).Mature longDwell :=
  ⟨show 30 ≤ 100 by decide, rfl⟩

theorem sampleRow_observed (index : Nat) : (sampleRow index).Observed longDwell :=
  ⟨show 7 ≤ 14 by decide, rfl⟩

theorem sampleRow_complete (index : Nat) : (sampleRow index).Complete longDwell := by
  have hpos : (0 : MetricValue) ≤ (1 : Rat) := by exact_mod_cast zero_le_one
  exact ⟨rfl, rfl, WithTop.coe_ne_top, hpos, WithTop.coe_ne_top, hpos, WithTop.coe_ne_top, hpos⟩

theorem sample_complete : incompleteActive sampleActive sampleEvidence longDwell = [] := by
  refine List.eq_nil_iff_forall_not_mem.mpr fun symbol hm => ?_
  rw [incompleteActive, mem_sortedSymbols, List.mem_filter, decide_eq_true_eq] at hm
  obtain ⟨hm, htrading, hincomplete⟩ := hm
  have heligible : symbol ∈ sampleEvidence.eligible := by
    rw [MarketEvidence.inactive, mem_sortedSymbols, List.mem_filter, decide_eq_true_eq] at htrading
    by_contra hnot
    exact htrading ⟨hm, hnot⟩
  unfold Incomplete at hincomplete
  split at hincomplete
  · rename_i hnone
    obtain ⟨index, hindex, rfl⟩ := List.mem_map.mp heligible
    exact absurd (decide_eq_true rfl) (List.find?_eq_none.mp hnone (sampleRow index)
      (List.mem_map_of_mem hindex))
  · rename_i row hrow
    obtain ⟨index, rfl⟩ := mem_sampleRows (List.mem_of_find?_eq_some hrow)
    rcases hincomplete with h | ⟨-, h⟩ | ⟨-, h⟩
    · exact h (sampleRow_complete index)
    · exact h (sampleRow_mature index)
    · exact h (sampleRow_observed index)

theorem length_sampleRows : sampleEvidence.rows.length = 59 := by
  rw [sampleEvidence, List.length_map, List.length_range']

theorem sample_mature : ∃ mature, maturePool sampleEvidence.rows longDwell = .ok mature ∧
    mature.length = 59 ∧ (mature.map MarketRow.symbol).Nodup ∧
      ∀ row ∈ mature, row ∈ sampleEvidence.rows := by
  obtain ⟨mature, hok, hnodup, hmem⟩ :=
    ok_of_moderate (maturePool_outcome sampleEvidence longDwell) sampleEvidence_moderate
  have hperm : mature.Perm sampleEvidence.rows := by
    refine (List.perm_ext_iff_of_nodup hnodup.of_map (nodup_rows sampleEvidence).of_map).mpr
      fun row => ⟨fun hm => ((hmem row).mp hm).1, fun hm => (hmem row).mpr ?_⟩
    obtain ⟨index, rfl⟩ := mem_sampleRows hm
    exact ⟨hm, sampleRow_mature index, sampleRow_complete index⟩
  exact ⟨mature, hok, hperm.length_eq.trans length_sampleRows, hnodup,
    fun row hm => hperm.mem_iff.mp hm⟩

theorem sample_probes : ∃ probes, probePool sampleEvidence.rows longDwell = .ok probes ∧
    probes.length = 59 ∧ (probes.map MarketRow.symbol).Nodup := by
  have heligible : (sampleEvidence.rows.filter fun row =>
      row.Observed longDwell ∧ row.Complete longDwell) = sampleEvidence.rows := by
    refine List.filter_eq_self.mpr fun row hm => ?_
    obtain ⟨index, rfl⟩ := mem_sampleRows hm
    exact decide_eq_true ⟨sampleRow_observed index, sampleRow_complete index⟩
  have hrecent : (sampleEvidence.rows.filter fun row =>
      row.ageDays < longDwell.coreMinimumAgeDays) = [] := by
    refine List.filter_eq_nil_iff.mpr fun row hm => ?_
    obtain ⟨index, rfl⟩ := mem_sampleRows hm
    exact fun h => absurd (of_decide_eq_true h) (show ¬ 100 < 30 by decide)
  have hfallback : (sampleEvidence.rows.filter fun row =>
      longDwell.coreMinimumAgeDays ≤ row.ageDays) = sampleEvidence.rows := by
    refine List.filter_eq_self.mpr fun row hm => ?_
    obtain ⟨index, rfl⟩ := mem_sampleRows hm
    exact decide_eq_true (show 30 ≤ 100 by decide)
  obtain ⟨ranked, hranked, hperm⟩ := ok_of_moderate
    (rankMarketRows_outcome fun h => h) sampleEvidence_moderate
  have hnone : rankMarketRows [] = .ok [] := rfl
  refine ⟨ranked, ?_, hperm.length_eq.trans length_sampleRows, ?_⟩
  · unfold probePool
    simp only [heligible, hrecent, hfallback]
    exact bind_eq hnone (bind_eq hranked rfl)
  · rw [(hperm.map _).nodup_iff]
    exact nodup_rows sampleEvidence

theorem sample_context : ∃ context, marketContext sampleEvidence.rows longDwell = .ok context ∧
    freezeReason longDwell context = some "market_context_panel_incomplete" := by
  have hpanel : ((sampleEvidence.rows.map fun row =>
      (⟨row.history.marketVolumes, row.history.marketTrades⟩ : ActivitySeries)).filterM
        (inPanel longDwell.marketContextBaselineDays)) = .ok [] := by
    rw [filterM_eq (q := fun _ => false), List.filter_false]
    intro series hm
    obtain ⟨row, hrow, rfl⟩ := List.mem_map.mp hm
    obtain ⟨index, rfl⟩ := mem_sampleRows hrow
    rfl
  exact ⟨_, bind_eq hpanel rfl, rfl⟩

theorem longDwell_raises :
    selectRollingUniverse sampleActive sampleEvidence sampleMidnight [] [] longDwell =
      .error "OverflowError: days; must have magnitude <= 999999999" := by
  obtain ⟨mature, hmature, hlength, hnodup, hrows⟩ := sample_mature
  obtain ⟨probes, hprobes, hprobeLength, hprobesNodup⟩ := sample_probes
  obtain ⟨context, hcontext, hfrozen⟩ := sample_context
  have hinactive : sampleSymbol 59 ∈ sampleEvidence.inactive sampleActive.members := by
    have hsorted := sampleSymbols_sorted
    rw [← sampleSymbols_append 59 1, List.pairwise_append] at hsorted
    rw [MarketEvidence.inactive, mem_sortedSymbols, List.mem_filter, decide_eq_true_eq,
      mem_members]
    refine ⟨List.mem_append_right _ (List.mem_map.mpr ⟨59, by simp, rfl⟩), fun hm => ?_⟩
    exact lt_irrefl _ (hsorted.2.2 _ hm _ (List.mem_singleton_self _))
  obtain ⟨core, hcore, hrenewed⟩ := @selectCore_ok sampleActive
    sampleEvidence sampleMidnight longDwell [] false (by decide) _ hnodup
    (by rw [List.length_map, hlength]; decide) (fun symbol hm => by
      obtain ⟨row, hrow, rfl⟩ := List.mem_map.mp hm
      exact not_inactive sampleEvidence (hrows row hrow) _)
  have hpreferred : ¬ ((probes.map MarketRow.symbol).filter fun symbol => symbol ∉ core).length <
      5 := by
    have hin : ((probes.map MarketRow.symbol).filter fun symbol => symbol ∈ core).length ≤ 50 :=
      hrenewed.size ▸ length_le_of_subset (hprobesNodup.filter _) fun symbol hm =>
        of_decide_eq_true (List.mem_filter.mp hm).2
    have hsplit := List.length_eq_length_filter_add (l := probes.map MarketRow.symbol)
      fun symbol => symbol ∈ core
    have hnot : ((probes.map MarketRow.symbol).filter fun symbol => !decide (symbol ∈ core)) =
        (probes.map MarketRow.symbol).filter fun symbol => symbol ∉ core := by simp
    rw [hnot, List.length_map, hprobeLength] at hsplit
    omega
  refine bind_eq hmature (bind_eq hprobes (bind_eq hcontext ?_))
  dsimp only
  rw [sample_complete, hfrozen, if_neg (not_not.mpr rfl), hlength, hprobeLength,
    if_neg (by decide), if_neg (fun h => List.ne_nil_of_mem hinactive h.2)]
  refine bind_eq hcore ?_
  rw [if_neg hpreferred]
  exact bind_error (bind_error (dif_neg (by decide)))

/-- A window whose first quartile is one of its volumes. -/
def longWindow : RollingPolicy := { liquidityWindowDays := 17 }

theorem admitted_longWindow : longWindow.Admitted := by
  constructor <;> norm_num [longWindow]

/-- `1E+1000000` -/
def largeVolume : Rat := (10 : Rat) ^ (1000000 : Int)

/-- A symbol of which this was traded on each day of the window. -/
def largeRow : MarketRow :=
  { sampleRow 0 with history := { (sampleRow 0).history with
      volumes := List.replicate 17 largeVolume
      q25QuoteVolume := largeVolume } }

def largeEvidence : MarketEvidence where
  eligible := [sampleSymbol 0]
  rows := [largeRow]
  distinct := List.nodup_singleton _
  listed := .refl _

theorem contextRound_large : contextRound largeVolume = .error "decimal.Overflow" := by
  have hpositive : (0 : Rat) < (10 : Rat) ^ (1000000 : Int) := zpow_pos (by norm_num) _
  have hdigits := @roundDigits_of_digits 10 28 (-1000026) ((10 : Rat) ^ (1000000 : Int))
    (by decide) 1 1000000 (by decide) (by decide) (by rw [Nat.cast_one, one_mul]; rfl)
  have hlog : Int.log 10 ((10 : Rat) ^ (1000000 : Int)) = 1000000 := by
    exact_mod_cast Int.log_zpow (R := Rat) (b := 10) (by decide) 1000000
  unfold contextRound largeVolume
  dsimp only
  rw [abs_of_pos hpositive, hdigits, hlog, if_pos (by decide)]

theorem largeEvidence_raises :
    selectRollingUniverse sampleActive largeEvidence sampleMidnight [] [] longWindow =
      .error "decimal.Overflow" := by
  have hpos : (0 : MetricValue) ≤ (1 : Rat) := by exact_mod_cast zero_le_one
  have hcomplete : largeRow.Complete longWindow :=
    ⟨rfl, rfl, WithTop.coe_ne_top, hpos, WithTop.coe_ne_top, hpos, WithTop.coe_ne_top, hpos⟩
  have hmature : largeRow.Mature longWindow := ⟨show 30 ≤ 100 by decide, List.length_replicate⟩
  have hfilter : (largeEvidence.rows.filter fun row =>
      row.Mature longWindow ∧ row.Complete longWindow) = [largeRow] :=
    List.filter_cons_of_pos (decide_eq_true ⟨hmature, hcomplete⟩)
  have hkey : metricKey contextNumber true
      (sampleSymbol 0, ((largeVolume : MetricValue) : DecimalNumber)) =
        .error "decimal.Overflow" := by
    rw [metricKey, if_pos rfl, contextNumber_coe, contextRound_large]
    rfl
  apply bind_error
  unfold maturePool
  rw [hfilter]
  apply bind_error
  rw [List.mapM_cons]
  apply bind_error
  apply bind_error
  exact bind_error hkey

/-- A policy that the configuration admits and for which the selection raises, and numbers that
the evidence may hold and that the decimal context may not. -/
theorem selectRollingUniverse_raises :
    (longDwell.Admitted ∧
      selectRollingUniverse sampleActive sampleEvidence sampleMidnight [] [] longDwell =
        .error "OverflowError: days; must have magnitude <= 999999999") ∧
    longWindow.Admitted ∧
      selectRollingUniverse sampleActive largeEvidence sampleMidnight [] [] longWindow =
        .error "decimal.Overflow" :=
  ⟨⟨admitted_longDwell, longDwell_raises⟩, admitted_longWindow, largeEvidence_raises⟩

end Sample

end MiryFormal
