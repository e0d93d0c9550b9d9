import MiryFormal.Universe.Dominance
import MiryFormal.Universe.SelectionTotal

/-!
# How much one decision may change

Every role has its own limit, and a symbol that moves into another role leaves a vacancy that
the limit does not count. The moves are counted here role by role, and then together.
-/

namespace MiryFormal

set_option autoImplicit false

/-! ## Dwell times -/

theorem dwellComplete_true {joined effective : Datetime} {required : Timedelta}
    (h : dwellComplete joined effective required = .ok true) :
    joined.micros + required.micros ≤ effective.micros := by
  unfold dwellComplete Datetime.minus at h
  split at h
  · have hle : joined.micros ≤ effective.micros - required.micros := of_decide_eq_true
      (Except.ok.inj h)
    omega
  · cases h

theorem ofHours_micros {hours : Nat} {required : Timedelta}
    (h : Timedelta.ofHours hours = .ok required) : required.micros = hours * 3600000000 := by
  unfold Timedelta.ofHours at h
  split at h
  · cases h
    rfl
  · cases h

theorem ofDays_micros {days : Nat} {required : Timedelta}
    (h : Timedelta.ofDays days = .ok required) : required.micros = days * 86400000000 := by
  unfold Timedelta.ofDays at h
  split at h
  · cases h
    rfl
  · cases h

/-! ## Buckets -/

section Bucket
variable {preferred result out : List String} {dwelt : String → Except String Bool}
  {leading : List String} {limit changes : Nat}

/-- A vacancy is filled by at most one symbol. -/
theorem fillBucket_eq (preferred result : List String) : ∃ entrants,
    fillBucket preferred result = result ++ entrants ∧ entrants.length ≤ 5 - result.length := by
  induction preferred generalizing result with
  | nil => exact ⟨[], (List.append_nil _).symm, Nat.zero_le _⟩
  | cons symbol preferred ih =>
    unfold fillBucket
    split
    · exact ⟨[], (List.append_nil _).symm, Nat.zero_le _⟩
    · split
      · exact ih result
      · obtain ⟨entrants, heq, hlength⟩ := ih (result ++ [symbol])
        refine ⟨symbol :: entrants, ?_, ?_⟩
        · rw [heq, List.append_assoc]
          rfl
        · rw [List.length_append, List.length_singleton] at hlength
          rw [List.length_cons]
          omega

/-- Who leaves has dwelt long enough, and each one who leaves makes room for one. -/
theorem replaceIncumbents_changes
    (h : replaceIncumbents dwelt leading limit preferred changes result = .ok out) :
    (∀ symbol ∈ result, symbol ∉ out → changes < limit ∧ dwelt symbol = .ok true) ∧
      (out.toFinset \ result.toFinset).card ≤ limit - changes := by
  induction preferred generalizing changes result with
  | nil =>
    cases h
    refine ⟨fun symbol hm hout => absurd hm hout, ?_⟩
    rw [Finset.sdiff_self]
    exact Nat.zero_le _
  | cons symbol preferred ih =>
    unfold replaceIncumbents at h
    split at h
    · exact ih h
    · rename_i hpass
      obtain ⟨-, hlimit⟩ := not_or.mp hpass
      obtain ⟨removable, hremovable, hrest⟩ := exists_of_bind_ok h
      cases hlast : removable.getLast? with
      | none =>
        rw [hlast] at hrest
        exact ih hrest
      | some last =>
        rw [hlast] at hrest
        obtain ⟨hleave, hcount⟩ := ih hrest
        obtain ⟨-, htrue⟩ := mem_of_filterM_ok hremovable (List.mem_of_getLast? hlast)
        have hdwelt : dwelt last = .ok true := by
          split at htrue
          · cases htrue
          · exact htrue
        constructor
        · intro incumbent hm hout
          by_cases heq : incumbent = last
          · rw [heq]
            exact ⟨by omega, hdwelt⟩
          · have hstill : incumbent ∈ result.erase last ++ [symbol] :=
              List.mem_append_left _ ((List.mem_erase_of_ne heq).mpr hm)
            exact ⟨by omega, (hleave incumbent hstill hout).2⟩
        · have hsub : out.toFinset \ result.toFinset ⊆
              insert symbol (out.toFinset \ (result.erase last ++ [symbol]).toFinset) := by
            intro entrant hm
            obtain ⟨hin, hnew⟩ := Finset.mem_sdiff.mp hm
            by_cases heq : entrant = symbol
            · rw [heq]
              exact Finset.mem_insert_self _ _
            · apply Finset.mem_insert_of_mem
              refine Finset.mem_sdiff.mpr ⟨hin, ?_⟩
              intro hold
              apply hnew
              rw [List.mem_toFinset] at hold ⊢
              rcases List.mem_append.mp hold with hold | hold
              · exact List.mem_of_mem_erase hold
              · exact absurd (List.mem_singleton.mp hold) heq
          have hle := Finset.card_le_card hsub
          have hinsert := Finset.card_insert_le symbol
            (out.toFinset \ (result.erase last ++ [symbol]).toFinset)
          omega

/-- What a reconciled bucket may change. -/
structure Limited (current forbidden inactive : List String)
    (memberSince : List (String × Datetime)) (effectiveAt : Datetime) (minimumDwell : Timedelta)
    (limit : Nat) (bucket : List String) : Prop where
  dwelt : ∀ symbol ∈ current, symbol ∉ forbidden → symbol ∉ inactive → symbol ∉ bucket →
    0 < limit ∧ ((KeyedDict.get id symbol memberSince).getD effectiveAt).micros +
      minimumDwell.micros ≤ effectiveAt.micros
  entrants : (bucket.toFinset \ current.toFinset).card ≤
    limit + (5 - (current.filter fun symbol => symbol ∉ forbidden ∧ symbol ∉ inactive).length)

theorem reconcileBucket_limited {current preferred forbidden inactive bucket : List String}
    {memberSince : List (String × Datetime)} {effectiveAt : Datetime} {minimumDwell : Timedelta}
    (h : reconcileBucket current preferred forbidden inactive memberSince effectiveAt minimumDwell
      limit = .ok bucket) :
    Limited current forbidden inactive memberSince effectiveAt minimumDwell limit bucket := by
  unfold reconcileBucket at h
  dsimp only at h
  generalize hkept : (current.filter fun symbol => symbol ∉ forbidden ∧ symbol ∉ inactive) = kept
    at h
  obtain ⟨out, hout, hreturn⟩ := exists_of_bind_ok h
  have hbucket : bucket = sortedSymbols out := by
    split at hreturn
    · cases hreturn
    · split at hreturn
      · cases hreturn
      · exact (Except.ok.inj hreturn).symm
  obtain ⟨entrants, hfill, hlength⟩ := fillBucket_eq
    (fromKeys (preferred.filter fun symbol => symbol ∉ forbidden)) kept
  rw [hfill] at hout
  obtain ⟨hleave, hcount⟩ := replaceIncumbents_changes hout
  constructor
  · intro symbol hm hallowed htrading hgone
    have hin : symbol ∈ kept ++ entrants := by
      apply List.mem_append_left
      rw [← hkept, List.mem_filter]
      exact ⟨hm, decide_eq_true ⟨hallowed, htrading⟩⟩
    have hnot : symbol ∉ out := by
      intro hstill
      apply hgone
      rw [hbucket]
      exact mem_sortedSymbols.mpr hstill
    obtain ⟨hlimit, htrue⟩ := hleave symbol hin hnot
    exact ⟨hlimit, dwellComplete_true htrue⟩
  · have hsub : bucket.toFinset \ current.toFinset ⊆
        (out.toFinset \ (kept ++ entrants).toFinset) ∪ entrants.toFinset := by
      intro symbol hm
      obtain ⟨hin, hnew⟩ := Finset.mem_sdiff.mp hm
      rw [List.mem_toFinset, hbucket, mem_sortedSymbols] at hin
      by_cases hentrant : symbol ∈ entrants
      · apply Finset.mem_union_right
        exact List.mem_toFinset.mpr hentrant
      · apply Finset.mem_union_left
        refine Finset.mem_sdiff.mpr ⟨List.mem_toFinset.mpr hin, ?_⟩
        intro hold
        rcases List.mem_append.mp (List.mem_toFinset.mp hold) with hold | hold
        · apply hnew
          rw [← hkept] at hold
          exact List.mem_toFinset.mpr (List.mem_of_mem_filter hold)
        · exact hentrant hold
    have hle := Finset.card_le_card hsub
    have hunion := Finset.card_union_le (out.toFinset \ (kept ++ entrants).toFinset)
      entrants.toFinset
    have hentrants := entrants.toFinset_card_le
    rw [hkept]
    omega

end Bucket

/-! ## The core -/

section Core
variable {inactive pool core out : List String}

/-- Without inactive members nothing is replaced. -/
theorem replaceInactive_trading (h : replaceInactive [] pool core = .ok out) : out = core := by
  unfold replaceInactive at h
  apply foldlM_ok_eq _ h
  intro before index after hround
  obtain ⟨symbol, -, hkeep⟩ := exists_of_bind_ok hround
  rw [if_neg List.not_mem_nil] at hkeep
  exact (Except.ok.inj hkeep).symm

theorem replaceInactive_nil (pool core : List String) :
    replaceInactive [] pool core = .ok core := by
  have hrun : ∃ out, replaceInactive [] pool core = .ok out ∧ out = core := by
    unfold replaceInactive
    apply foldlM_range_total (P := fun _ out => out = core) rfl
    intro count hcount out hout
    subst hout
    exact ⟨out, bind_eq (itemAt_ok hcount) rfl, rfl⟩
  obtain ⟨out, hok, rfl⟩ := hrun
  exact hok

theorem mem_replaceFirst_iff {values : List String} {old new : String} (h : values.Nodup)
    (hold : old ∈ values) {symbol : String} :
    symbol ∈ replaceFirst values old new ↔ (symbol ∈ values ∧ symbol ≠ old) ∨ symbol = new := by
  induction values with
  | nil => exact absurd hold List.not_mem_nil
  | cons first values ih =>
    obtain ⟨hfirst, hrest⟩ := List.nodup_cons.mp h
    by_cases heq : first = old
    · have hset : replaceFirst (first :: values) old new = new :: values := by
        rw [replaceFirst, heq, List.idxOf_cons_self, List.set_cons_zero]
      rw [hset, List.mem_cons, List.mem_cons, heq]
      rw [heq] at hfirst
      constructor
      · intro hm
        rcases hm with rfl | hm
        · exact .inr rfl
        · refine .inl ⟨.inr hm, ?_⟩
          intro hsame
          exact hfirst (hsame ▸ hm)
      · intro hm
        rcases hm with ⟨rfl | hm, hne⟩ | rfl
        · exact absurd rfl hne
        · exact .inr hm
        · exact .inl rfl
    · have hset : replaceFirst (first :: values) old new = first :: replaceFirst values old new := by
        rw [replaceFirst, List.idxOf_cons_ne _ heq, List.set_cons_succ]
        rfl
      have hm : old ∈ values := (List.mem_cons.mp hold).resolve_left fun hsame => heq hsame.symm
      rw [hset, List.mem_cons, List.mem_cons, ih hrest hm]
      constructor
      · intro hm
        rcases hm with rfl | ⟨hm, hne⟩ | rfl
        · exact .inl ⟨.inl rfl, heq⟩
        · exact .inl ⟨.inr hm, hne⟩
        · exact .inr rfl
      · intro hm
        rcases hm with ⟨rfl | hm, hne⟩ | rfl
        · exact .inl rfl
        · exact .inr (.inl ⟨hm, hne⟩)
        · exact .inr (.inr rfl)

/-- The members that left a core, each with the one that took its place. -/
structure CoreSwaps (policy : RollingPolicy) (rank : String → Nat) (dwelt : String → Prop)
    (old new : List String) (swaps : List (String × String)) : Prop where
  members : ∀ symbol, symbol ∈ new ↔
    (symbol ∈ old ∧ symbol ∉ swaps.map Prod.fst) ∨ symbol ∈ swaps.map Prod.snd
  distinct : (swaps.map Prod.fst).Nodup ∧ (swaps.map Prod.snd).Nodup
  removed : ∀ swap ∈ swaps,
    swap.1 ∈ old ∧ policy.coreRetainRank < rank swap.1 ∧ dwelt swap.1
  entered : ∀ swap ∈ swaps,
    swap.2 ∉ old ∧ rank swap.2 ≤ policy.coreEntryRank ∧ rank swap.2 < rank swap.1

theorem CoreSwaps.refl (policy : RollingPolicy) (rank : String → Nat) (dwelt : String → Prop)
    (core : List String) : CoreSwaps policy rank dwelt core core [] := by
  refine ⟨?_, ⟨List.nodup_nil, List.nodup_nil⟩, ?_, ?_⟩
  · intro symbol
    simp
  · intro swap hm
    exact absurd hm List.not_mem_nil
  · intro swap hm
    exact absurd hm List.not_mem_nil

/-- One swap before the others. The challenger is not removed again, since its rank is better
than the one that is retained. -/
theorem CoreSwaps.cons {policy : RollingPolicy} {rank : String → Nat} {dwelt : String → Prop}
    {incumbent challenger : String} {swaps : List (String × String)} (hcore : core.Nodup)
    (hpolicy : policy.coreEntryRank ≤ policy.coreRetainRank) (hin : incumbent ∈ core)
    (hnew : challenger ∉ core) (hlater : challenger ∉ swaps.map Prod.snd)
    (hrank : rank challenger ≤ policy.coreEntryRank) (hbetter : rank challenger < rank incumbent)
    (hbeyond : policy.coreRetainRank < rank incumbent) (hdwelt : dwelt incumbent)
    (h : CoreSwaps policy rank dwelt (replaceFirst core incumbent challenger) out swaps) :
    CoreSwaps policy rank dwelt core out ((incumbent, challenger) :: swaps) := by
  have hmem : ∀ symbol, symbol ∈ replaceFirst core incumbent challenger ↔
      (symbol ∈ core ∧ symbol ≠ incumbent) ∨ symbol = challenger :=
    fun symbol => mem_replaceFirst_iff hcore hin
  have hkept : ∀ swap ∈ swaps, swap.1 ∈ core ∧ swap.1 ≠ incumbent := by
    intro swap hm
    obtain ⟨hold, hrank', -⟩ := h.removed swap hm
    rcases (hmem swap.1).mp hold with hold | heq
    · exact hold
    · rw [heq] at hrank'
      omega
  have hfirst : incumbent ∉ swaps.map Prod.fst := by
    intro hm
    obtain ⟨swap, hm, heq⟩ := List.mem_map.mp hm
    exact (hkept swap hm).2 heq
  have hchallenger : challenger ∉ swaps.map Prod.fst := by
    intro hm
    obtain ⟨swap, hm, heq⟩ := List.mem_map.mp hm
    have := (h.removed swap hm).2.1
    rw [heq] at this
    omega
  constructor
  · intro symbol
    rw [h.members, hmem, List.map_cons, List.map_cons, List.mem_cons, List.mem_cons]
    constructor
    · intro hm
      rcases hm with ⟨⟨hold, hne⟩ | rfl, hstill⟩ | hentered
      · exact .inl ⟨hold, not_or.mpr ⟨hne, hstill⟩⟩
      · exact .inr (.inl rfl)
      · exact .inr (.inr hentered)
    · intro hm
      rcases hm with ⟨hold, hstill⟩ | rfl | hentered
      · obtain ⟨hne, hstill⟩ := not_or.mp hstill
        exact .inl ⟨.inl ⟨hold, hne⟩, hstill⟩
      · exact .inl ⟨.inr rfl, hchallenger⟩
      · exact .inr hentered
  · exact ⟨List.nodup_cons.mpr ⟨hfirst, h.distinct.1⟩, List.nodup_cons.mpr ⟨hlater, h.distinct.2⟩⟩
  · intro swap hm
    rcases List.mem_cons.mp hm with rfl | hm
    · exact ⟨hin, hbeyond, hdwelt⟩
    · exact ⟨(hkept swap hm).1, (h.removed swap hm).2⟩
  · intro swap hm
    rcases List.mem_cons.mp hm with rfl | hm
    · exact ⟨hnew, hrank, hbetter⟩
    · obtain ⟨hout, hrest⟩ := h.entered swap hm
      refine ⟨?_, hrest⟩
      intro hold
      by_cases heq : swap.2 = incumbent
      · have := hrest.1
        rw [heq] at this
        omega
      · exact hout ((hmem swap.2).mpr (.inl ⟨hold, heq⟩))

variable {policy : RollingPolicy} {ranks : List (String × Nat)}
  {dwelt : String → Except String Bool} {promotable : List String} {changes : Nat}

theorem exists_swaps_refl (h : Except.ok (ε := String) core = .ok out) :
    ∃ swaps : List (String × String),
      swaps.length ≤ policy.coreWeeklyReplacements - changes ∧
      (∀ swap ∈ swaps, swap.2 ∈ promotable) ∧
      CoreSwaps policy (rankOrLast ranks) (fun symbol => dwelt symbol = .ok true) core out
        swaps := by
  cases h
  exact ⟨[], Nat.zero_le _, fun swap hm => absurd hm List.not_mem_nil, .refl _ _ _ _⟩

theorem rotateCore_swaps (hpolicy : policy.coreEntryRank ≤ policy.coreRetainRank)
    (hdistinct : promotable.Nodup)
    (hpromotable : ∀ symbol ∈ promotable,
      symbol ∉ core ∧ rankOrLast ranks symbol ≤ policy.coreEntryRank) (hcore : core.Nodup)
    (h : rotateCore policy ranks dwelt promotable changes core = .ok out) :
    ∃ swaps, swaps.length ≤ policy.coreWeeklyReplacements - changes ∧
      (∀ swap ∈ swaps, swap.2 ∈ promotable) ∧
      CoreSwaps policy (rankOrLast ranks) (fun symbol => dwelt symbol = .ok true) core out
        swaps := by
  induction promotable generalizing core changes with
  | nil => exact exists_swaps_refl h
  | cons challenger promotable ih =>
    obtain ⟨hchallenger, hrest⟩ := List.nodup_cons.mp hdistinct
    obtain ⟨hnew, hrank⟩ := hpromotable challenger List.mem_cons_self
    unfold rotateCore at h
    split at h
    · exact exists_swaps_refl h
    · rename_i hlimit
      obtain ⟨removable, hremovable, hnext⟩ := exists_of_bind_ok h
      cases hworst : removable.argmax (rankOrLast ranks) with
      | none =>
        rw [hworst] at hnext
        exact exists_swaps_refl hnext
      | some incumbent =>
        rw [hworst] at hnext
        dsimp only at hnext
        split at hnext
        · exact exists_swaps_refl hnext
        · rename_i hbetter
          obtain ⟨hin, htrue⟩ := mem_of_filterM_ok hremovable (List.argmax_mem hworst)
          have hbeyond : policy.coreRetainRank < rankOrLast ranks incumbent ∧
              dwelt incumbent = .ok true := by
            split at htrue
            · rename_i hbeyond
              exact ⟨hbeyond, htrue⟩
            · cases htrue
          have hpromotable' : ∀ symbol ∈ promotable,
              symbol ∉ replaceFirst core incumbent challenger ∧
                rankOrLast ranks symbol ≤ policy.coreEntryRank := by
            intro symbol hm
            obtain ⟨hout, hle⟩ := hpromotable symbol (List.mem_cons_of_mem _ hm)
            refine ⟨?_, hle⟩
            intro hsymbol
            rcases mem_of_mem_replaceFirst hsymbol with hold | rfl
            · exact hout hold
            · exact hchallenger hm
          obtain ⟨swaps, hlength, hfrom, hswaps⟩ :=
            ih hrest hpromotable' (nodup_replaceFirst hcore hnew) hnext
          have hlater : challenger ∉ swaps.map Prod.snd := by
            intro hm
            obtain ⟨swap, hm, heq⟩ := List.mem_map.mp hm
            exact hchallenger (heq ▸ hfrom swap hm)
          refine ⟨(incumbent, challenger) :: swaps, ?_, ?_, ?_⟩
          · rw [List.length_cons]
            omega
          · intro swap hm
            rcases List.mem_cons.mp hm with rfl | hm
            · exact List.mem_cons_self
            · exact List.mem_cons_of_mem _ (hfrom swap hm)
          · exact hswaps.cons hcore hpolicy hin hnew hlater hrank (not_le.mp hbetter) hbeyond.1
              hbeyond.2

end Core

/-! ## The selection -/

section Select
variable {active : UniverseDecision} {evidence : MarketEvidence} {effectiveAt : Datetime}
  {memberSince coreSince : List (String × Datetime)} {policy : RollingPolicy}
  {result : SelectionResult}

/-- All symbols of a result. -/
def SelectionResult.members (result : SelectionResult) : List String :=
  result.core ++ result.boundary ++ result.probe

/-- The symbols that enter the universe. -/
def SelectionResult.entrants (result : SelectionResult) (active : UniverseDecision) :
    Finset String :=
  result.members.toFinset \ active.members.toFinset

/-- What a result was made of, unless the active roles were kept. -/
structure Selected (active : UniverseDecision) (evidence : MarketEvidence)
    (effectiveAt : Datetime) (memberSince coreSince : List (String × Datetime))
    (policy : RollingPolicy) (mature : List String) (result : SelectionResult)
    (core probe boundary preferred ranked : List String) : Prop where
  selectsCore : selectCore active evidence effectiveAt coreSince policy
    (freezeReason policy result.marketContext).isNone mature = .ok core
  selectsProbe : selectProbe active evidence effectiveAt memberSince policy
    (freezeReason policy result.marketContext).isNone core preferred = .ok probe
  selectsBoundary : selectBoundary active evidence effectiveAt memberSince policy
    (freezeReason policy result.marketContext).isNone core probe ranked = .ok boundary
  roles : result.core = sortedSymbols core ∧ result.boundary = sortedSymbols boundary ∧
    result.probe = sortedSymbols probe

theorem selectRollingUniverse_cases
    (h : selectRollingUniverse active evidence effectiveAt memberSince coreSince policy =
      .ok result) :
    ∃ mature, maturePool evidence.rows policy = .ok mature ∧
      (result.KeepsActive active ∨
        ¬ (freezeReason policy result.marketContext ≠ none ∧
          evidence.inactive active.members = []) ∧
        ∃ core probe boundary preferred ranked,
          Selected active evidence effectiveAt memberSince coreSince policy
            (mature.map MarketRow.symbol) result core probe boundary preferred ranked) := by
  unfold selectRollingUniverse at h
  obtain ⟨mature, hmature, h⟩ := exists_of_bind_ok h
  obtain ⟨probes, hprobes, h⟩ := exists_of_bind_ok h
  obtain ⟨context, hcontext, h⟩ := exists_of_bind_ok h
  refine ⟨mature, hmature, ?_⟩
  dsimp only at h
  split at h
  · cases h
    exact .inl ⟨rfl, rfl, rfl⟩
  split at h
  · cases h
    exact .inl ⟨rfl, rfl, rfl⟩
  split at h
  · cases h
    exact .inl ⟨rfl, rfl, rfl⟩
  rename_i hallowed
  obtain ⟨core, hcore, h⟩ := exists_of_bind_ok h
  split at h
  · cases h
    exact .inl ⟨rfl, rfl, rfl⟩
  obtain ⟨probe, hprobe, h⟩ := exists_of_bind_ok h
  split at h
  · cases h
    exact .inl ⟨rfl, rfl, rfl⟩
  obtain ⟨boundary, hboundary, h⟩ := exists_of_bind_ok h
  cases h
  right
  refine ⟨?_, core, probe, boundary, _, _, hcore, hprobe, hboundary, rfl, rfl, rfl⟩
  intro hfrozen
  apply hallowed
  refine ⟨?_, hfrozen.2⟩
  have hne := hfrozen.1
  dsimp only at hne
  cases hreason : freezeReason policy context with
  | none => exact absurd hreason hne
  | some reason => rfl

variable {allowNormalChanges : Bool} {mature core probe boundary preferred ranked : List String}

theorem selectCore_steady (htrading : evidence.inactive active.members = [])
    (hsteady : effectiveAt.weekday ≠ 0 ∨ allowNormalChanges = false)
    (h : selectCore active evidence effectiveAt coreSince policy allowNormalChanges mature =
      .ok core) : core = active.core := by
  unfold selectCore at h
  rw [htrading] at h
  obtain ⟨kept, hkept, hrest⟩ := exists_of_bind_ok h
  rw [if_neg] at hrest
  · cases hrest
    exact replaceInactive_trading hkept
  · intro hboth
    rcases hsteady with hday | hfrozen
    · exact hday hboth.2
    · rw [hfrozen] at hboth
      cases hboth.1

/-- The dwell time of a member of the core, on the day of the decision. -/
def CoreDwelt (active : UniverseDecision) (effectiveAt : Datetime)
    (coreSince : List (String × Datetime)) (policy : RollingPolicy) (symbol : String) : Prop :=
  ((KeyedDict.get id symbol coreSince).getD active.effectiveAt).micros +
    policy.coreMinimumDwellDays * 86400000000 ≤ effectiveAt.micros

theorem coreDwelt_true {symbol : String}
    (h : coreDwelt active effectiveAt coreSince policy symbol = .ok true) :
    CoreDwelt active effectiveAt coreSince policy symbol := by
  obtain ⟨required, hrequired, htrue⟩ := exists_of_bind_ok h
  have := dwellComplete_true htrue
  rw [ofDays_micros hrequired] at this
  exact this

theorem selectCore_swaps (hpolicy : policy.Admitted) (hmature : mature.Nodup)
    (htrading : evidence.inactive active.members = [])
    (h : selectCore active evidence effectiveAt coreSince policy allowNormalChanges mature =
      .ok core) :
    ∃ swaps, swaps.length ≤ policy.coreWeeklyReplacements ∧
      (∀ swap ∈ swaps, swap.2 ∈ mature) ∧
      CoreSwaps policy (rankOrLast (poolRanks mature))
        (CoreDwelt active effectiveAt coreSince policy) active.core core swaps := by
  unfold selectCore at h
  rw [htrading] at h
  obtain ⟨kept, hkept, hrest⟩ := exists_of_bind_ok h
  cases replaceInactive_trading hkept
  split at hrest
  · obtain ⟨swaps, hlength, hfrom, hswaps⟩ := rotateCore_swaps
      (hpolicy.coreEntryRank.2.trans hpolicy.coreRetainRank) ((hmature.filter _).filter _)
      (fun symbol hm => of_decide_eq_true (List.mem_filter.mp hm).2)
      (active.sorted.1.imp fun h => h.ne) hrest
    refine ⟨swaps, hlength.trans (Nat.sub_le _ _), ?_, ?_⟩
    · intro swap hm
      exact List.mem_of_mem_filter (List.mem_of_mem_filter (hfrom swap hm))
    · refine ⟨hswaps.members, hswaps.distinct, ?_, hswaps.entered⟩
      intro swap hm
      obtain ⟨hold, hrank, hdwelt⟩ := hswaps.removed swap hm
      exact ⟨hold, hrank, coreDwelt_true hdwelt⟩
  · cases hrest
    exact ⟨[], Nat.zero_le _, fun swap hm => absurd hm List.not_mem_nil, .refl _ _ _ _⟩

theorem selectProbe_limited
    (h : selectProbe active evidence effectiveAt memberSince policy allowNormalChanges core
      preferred = .ok probe) :
    ∃ required, required.micros = policy.candidateMinimumDwellHours * 3600000000 ∧
      Limited active.probe core (evidence.inactive active.members) memberSince effectiveAt required
        (if allowNormalChanges then 1 else 0) probe := by
  obtain ⟨required, hrequired, hbucket⟩ := exists_of_bind_ok h
  exact ⟨required, ofHours_micros hrequired, reconcileBucket_limited hbucket⟩

theorem selectBoundary_limited
    (h : selectBoundary active evidence effectiveAt memberSince policy allowNormalChanges core probe
      ranked = .ok boundary) :
    ∃ required, required.micros = policy.candidateMinimumDwellHours * 3600000000 ∧
      Limited active.boundary (core ++ probe) (evidence.inactive active.members) memberSince
        effectiveAt required
        (if allowNormalChanges then max 1 (policy.candidateDailyReplacements - 1) else 0)
        boundary := by
  obtain ⟨protectedSymbols, -, hrest⟩ := exists_of_bind_ok h
  obtain ⟨required, hrequired, hbucket⟩ := exists_of_bind_ok hrest
  exact ⟨required, ofHours_micros hrequired, reconcileBucket_limited hbucket⟩

/-- A member that has dwelt in its role. Without an entry it has not. -/
theorem since_of_dwelt (hpolicy : policy.Admitted) {required : Timedelta} {symbol : String}
    (hrequired : required.micros = policy.candidateMinimumDwellHours * 3600000000)
    (h : ((KeyedDict.get id symbol memberSince).getD effectiveAt).micros + required.micros ≤
      effectiveAt.micros) :
    ∃ since, KeyedDict.get id symbol memberSince = some since ∧
      since.micros + policy.candidateMinimumDwellHours * 3600000000 ≤ effectiveAt.micros := by
  have hpositive := hpolicy.candidateMinimumDwellHours
  cases hsince : KeyedDict.get id symbol memberSince with
  | none =>
    rw [hsince, Option.getD_none] at h
    omega
  | some since =>
    rw [hsince, Option.getD_some] at h
    exact ⟨since, rfl, by omega⟩

theorem mem_members_iff {symbol : String} : symbol ∈ result.members ↔
    symbol ∈ result.core ∨ symbol ∈ result.boundary ∨ symbol ∈ result.probe := by
  unfold SelectionResult.members
  rw [List.mem_append, List.mem_append, or_assoc]

theorem Selected.mem_iff
    (h : Selected active evidence effectiveAt memberSince coreSince policy mature result core probe
      boundary preferred ranked) {symbol : String} : symbol ∈ result.members ↔
        symbol ∈ core ∨ symbol ∈ boundary ∨ symbol ∈ probe := by
  obtain ⟨hcore, hboundary, hprobe⟩ := h.roles
  rw [mem_members_iff, hcore, hboundary, hprobe, mem_sortedSymbols, mem_sortedSymbols,
    mem_sortedSymbols]

/-- A candidate that is still trading leaves the universe from its own role only. -/
theorem Selected.leaves
    (h : Selected active evidence effectiveAt memberSince coreSince policy mature result core probe
      boundary preferred ranked) (hpolicy : policy.Admitted) {symbol : String}
    (hm : symbol ∈ active.boundary ++ active.probe)
    (htrading : symbol ∉ evidence.inactive active.members) (hgone : symbol ∉ result.members) :
    freezeReason policy result.marketContext = none ∧
      ∃ since, KeyedDict.get id symbol memberSince = some since ∧
        since.micros + policy.candidateMinimumDwellHours * 3600000000 ≤ effectiveAt.micros := by
  rw [h.mem_iff, not_or, not_or] at hgone
  obtain ⟨hcore, hboundary, hprobe⟩ := hgone
  have hfreeze : ∀ limit, 0 < (if (freezeReason policy result.marketContext).isNone then limit
      else 0) → freezeReason policy result.marketContext = none := by
    intro limit hpos
    split at hpos
    · rename_i hnone
      exact Option.isNone_iff_eq_none.mp hnone
    · exact absurd hpos (lt_irrefl 0)
  rcases List.mem_append.mp hm with hm | hm
  · obtain ⟨required, hrequired, hlimited⟩ := selectBoundary_limited h.selectsBoundary
    have hallowed : symbol ∉ core ++ probe := by
      intro hin
      rcases List.mem_append.mp hin with hin | hin
      · exact hcore hin
      · exact hprobe hin
    obtain ⟨hlimit, hdwelt⟩ := hlimited.dwelt symbol hm hallowed htrading hboundary
    exact ⟨hfreeze _ hlimit, since_of_dwelt hpolicy hrequired hdwelt⟩
  · obtain ⟨required, hrequired, hlimited⟩ := selectProbe_limited h.selectsProbe
    obtain ⟨hlimit, hdwelt⟩ := hlimited.dwelt symbol hm hcore htrading hprobe
    exact ⟨hfreeze _ hlimit, since_of_dwelt hpolicy hrequired hdwelt⟩

theorem roles_disjoint {symbol : String} (hm : symbol ∈ active.boundary) :
    symbol ∉ active.core ∧ symbol ∉ active.probe := by
  have hdistinct := active.distinct
  rw [List.nodup_append, List.nodup_append] at hdistinct
  constructor
  · intro hcore
    exact hdistinct.1.2.2 symbol hcore symbol hm rfl
  · intro hprobe
    exact hdistinct.2.2 symbol (List.mem_append_right _ hm) symbol hprobe rfl

theorem probe_not_core {symbol : String} (hm : symbol ∈ active.probe) : symbol ∉ active.core := by
  have hdistinct := active.distinct
  rw [List.nodup_append] at hdistinct
  intro hcore
  exact hdistinct.2.2 symbol (List.mem_append_left _ hcore) symbol hm rfl

/-- When the core stays, the probe takes one symbol, and what it takes from the boundary makes
room for one more there. -/
theorem Selected.entrants
    (h : Selected active evidence effectiveAt memberSince coreSince policy mature result core probe
      boundary preferred ranked) (htrading : evidence.inactive active.members = [])
    (hcore : core = active.core) :
    (result.entrants active).card ≤ 1 + max 1 (policy.candidateDailyReplacements - 1) := by
  obtain ⟨_, -, hprobe⟩ := selectProbe_limited h.selectsProbe
  obtain ⟨_, -, hboundary⟩ := selectBoundary_limited h.selectsBoundary
  have hprobeCount := hprobe.entrants
  have hboundaryCount := hboundary.entrants
  rw [htrading] at hprobeCount hboundaryCount
  -- The probe starts full.
  have hkept : (active.probe.filter fun symbol => symbol ∉ core ∧ symbol ∉ ([] : List String)) =
      active.probe := by
    apply List.filter_eq_self.mpr
    intro symbol hm
    rw [hcore]
    exact decide_eq_true ⟨probe_not_core hm, List.not_mem_nil⟩
  rw [hkept, active.sizes.2.2] at hprobeCount
  -- The boundary starts with what the probe leaves of it.
  have hvacancies : 5 - (active.boundary.filter fun symbol =>
      symbol ∉ core ++ probe ∧ symbol ∉ ([] : List String)).length ≤
        (active.boundary.toFinset ∩ probe.toFinset).card := by
    have hsplit := List.length_eq_length_filter_add (l := active.boundary)
      fun symbol => symbol ∉ core ++ probe ∧ symbol ∉ ([] : List String)
    rw [active.sizes.2.1] at hsplit
    have htaken : (active.boundary.filter fun symbol =>
        !decide (symbol ∉ core ++ probe ∧ symbol ∉ ([] : List String))).length ≤
          (active.boundary.toFinset ∩ probe.toFinset).card := by
      have hnodup : active.boundary.Nodup := active.sorted.2.1.imp fun h => h.ne
      rw [← List.toFinset_card_of_nodup (hnodup.filter _)]
      apply Finset.card_le_card
      intro symbol hm
      obtain ⟨hm, hout⟩ := List.mem_filter.mp (List.mem_toFinset.mp hm)
      refine Finset.mem_inter.mpr ⟨List.mem_toFinset.mpr hm, List.mem_toFinset.mpr ?_⟩
      by_contra hprobe
      have hnot : symbol ∉ core ++ probe := by
        intro hin
        rcases List.mem_append.mp hin with hin | hin
        · rw [hcore] at hin
          exact (roles_disjoint hm).1 hin
        · exact hprobe hin
      simp [hnot] at hout
    omega
  have hdisjoint : (probe.toFinset \ (active.probe.toFinset ∪ active.boundary.toFinset)).card +
      (active.boundary.toFinset ∩ probe.toFinset).card ≤
        (probe.toFinset \ active.probe.toFinset).card := by
    rw [← Finset.card_union_of_disjoint]
    · apply Finset.card_le_card
      intro symbol hm
      rcases Finset.mem_union.mp hm with hm | hm
      · obtain ⟨hin, hnew⟩ := Finset.mem_sdiff.mp hm
        exact Finset.mem_sdiff.mpr ⟨hin, fun hold => hnew (Finset.mem_union_left _ hold)⟩
      · obtain ⟨hold, hin⟩ := Finset.mem_inter.mp hm
        refine Finset.mem_sdiff.mpr ⟨hin, ?_⟩
        intro hprobe
        exact (roles_disjoint (List.mem_toFinset.mp hold)).2 (List.mem_toFinset.mp hprobe)
    · apply Finset.disjoint_left.mpr
      intro symbol hnew hold
      exact (Finset.mem_sdiff.mp hnew).2
        (Finset.mem_union_right _ (Finset.mem_inter.mp hold).1)
  have hsub : result.entrants active ⊆
      (probe.toFinset \ (active.probe.toFinset ∪ active.boundary.toFinset)) ∪
        (boundary.toFinset \ active.boundary.toFinset) := by
    intro symbol hm
    obtain ⟨hin, hnew⟩ := Finset.mem_sdiff.mp hm
    rw [List.mem_toFinset, mem_members, List.mem_append, List.mem_append, not_or, not_or] at hnew
    obtain ⟨⟨hnotCore, hnotBoundary⟩, hnotProbe⟩ := hnew
    rcases h.mem_iff.mp (List.mem_toFinset.mp hin) with hin | hin | hin
    · rw [hcore] at hin
      exact absurd hin hnotCore
    · apply Finset.mem_union_right
      simp [hin, hnotBoundary]
    · apply Finset.mem_union_left
      simp [hin, hnotBoundary, hnotProbe]
  have hle := (Finset.card_le_card hsub).trans (Finset.card_union_le _ _)
  have hone : (if (freezeReason policy result.marketContext).isNone then 1 else 0) ≤ 1 := by
    split <;> omega
  have hmany : (if (freezeReason policy result.marketContext).isNone then
      max 1 (policy.candidateDailyReplacements - 1) else 0) ≤
        max 1 (policy.candidateDailyReplacements - 1) := by
    split <;> omega
  omega

theorem SelectionResult.KeepsActive.mem_iff (h : result.KeepsActive active) {symbol : String} :
    symbol ∈ result.members ↔ symbol ∈ active.members := by
  obtain ⟨hcore, hboundary, hprobe⟩ := h
  unfold SelectionResult.members
  rw [mem_members, hcore, hboundary, hprobe]

theorem SelectionResult.KeepsActive.entrants (h : result.KeepsActive active) : result.entrants active = ∅ := by
  apply Finset.sdiff_eq_empty_iff_subset.mpr
  intro symbol hm
  rw [List.mem_toFinset] at hm ⊢
  exact h.mem_iff.mp hm

/-- What a decision may change. On other days than Monday the core stays, and few symbols enter.
On a Monday a few members of the core are swapped for better ones. A candidate that is still
trading leaves after its dwell time, and never while the market context is frozen. -/
theorem selectRollingUniverse_limits (hpolicy : policy.Admitted)
    (h : selectRollingUniverse active evidence effectiveAt memberSince coreSince policy =
      .ok result) :
    (evidence.inactive active.members = [] → effectiveAt.weekday ≠ 0 →
      result.core = active.core ∧
        (result.entrants active).card ≤ 1 + max 1 (policy.candidateDailyReplacements - 1)) ∧
    (evidence.inactive active.members = [] → effectiveAt.weekday = 0 →
      ∃ mature swaps, maturePool evidence.rows policy = .ok mature ∧
        swaps.length ≤ policy.coreWeeklyReplacements ∧
        (∀ swap ∈ swaps, swap.2 ∈ mature.map MarketRow.symbol) ∧
        CoreSwaps policy (rankOrLast (poolRanks (mature.map MarketRow.symbol)))
          (CoreDwelt active effectiveAt coreSince policy) active.core result.core swaps) ∧
    (∀ symbol ∈ active.boundary ++ active.probe, symbol ∉ evidence.inactive active.members →
      symbol ∉ result.members →
        ∃ since, KeyedDict.get id symbol memberSince = some since ∧
          since.micros + policy.candidateMinimumDwellHours * 3600000000 ≤ effectiveAt.micros) ∧
    (freezeReason policy result.marketContext ≠ none →
      (evidence.inactive active.members = [] → result.KeepsActive active) ∧
      ∀ symbol ∈ active.boundary ++ active.probe, symbol ∉ evidence.inactive active.members →
        symbol ∈ result.members) := by
  obtain ⟨mature, hmature, hkeeps | ⟨hallowed, core, probe, boundary, preferred, ranked, hselected⟩⟩
    := selectRollingUniverse_cases h
  · have hstays : ∀ symbol ∈ active.boundary ++ active.probe, symbol ∈ result.members := by
      intro symbol hm
      rw [hkeeps.mem_iff, mem_members, List.append_assoc]
      exact List.mem_append_right _ hm
    refine ⟨?_, ?_, ?_, ?_⟩
    · intro _ _
      refine ⟨hkeeps.1, ?_⟩
      rw [hkeeps.entrants, Finset.card_empty]
      exact Nat.zero_le _
    · intro _ _
      refine ⟨mature, [], hmature, Nat.zero_le _, fun swap hm => absurd hm List.not_mem_nil, ?_⟩
      rw [hkeeps.1]
      exact .refl _ _ _ _
    · intro symbol hm _ hgone
      exact absurd (hstays symbol hm) hgone
    · intro _
      exact ⟨fun _ => hkeeps, fun symbol hm _ => hstays symbol hm⟩
  · have hnodup := ((maturePool_outcome evidence policy).of_ok hmature).nodup
    obtain ⟨hcoreRole, -, -⟩ := hselected.roles
    refine ⟨?_, ?_, ?_, ?_⟩
    · intro htrading hday
      have hcore := selectCore_steady htrading (.inl hday) hselected.selectsCore
      refine ⟨?_, hselected.entrants htrading hcore⟩
      rw [hcoreRole, hcore]
      exact (active.sorted.1.imp fun h => h.le).insertionSort_eq
    · intro htrading _
      obtain ⟨swaps, hlength, hfrom, hswaps⟩ :=
        selectCore_swaps hpolicy hnodup htrading hselected.selectsCore
      refine ⟨mature, swaps, hmature, hlength, hfrom, ?_, hswaps.distinct, hswaps.removed,
        hswaps.entered⟩
      intro symbol
      rw [hcoreRole, mem_sortedSymbols]
      exact hswaps.members symbol
    · intro symbol hm htrading hgone
      exact (hselected.leaves hpolicy hm htrading hgone).2
    · intro hfrozen
      refine ⟨fun htrading => absurd ⟨hfrozen, htrading⟩ hallowed, ?_⟩
      intro symbol hm htrading
      by_contra hgone
      exact hfrozen (hselected.leaves hpolicy hm htrading hgone).1

end Select

/-! ## A Monday, a Tuesday, and a frozen Tuesday

The last core symbol ranks last and the first symbol is not a member. A young symbol enters the
probe, and the last probe symbol leaves. -/

section Sample

theorem rotationSymbols_sorted : (sampleSymbols 0 62).Pairwise (· < ·) :=
  List.isChain_iff_pairwise.mp (by decide +kernel)

theorem rotationCore_sorted : (sampleSymbols 1 49 ++ [sampleSymbol 60]).Pairwise (· < ·) :=
  List.isChain_iff_pairwise.mp (by decide +kernel)

def rotationActive : UniverseDecision where
  effectiveAt := ⟨739831 * 86400000000, by decide⟩
  core := sampleSymbols 1 49 ++ [sampleSymbol 60]
  boundary := sampleSymbols 50 5
  probe := sampleSymbols 55 5
  sizes := ⟨rfl, rfl, rfl⟩
  sorted := ⟨rotationCore_sorted, List.isChain_iff_pairwise.mp (by decide +kernel),
    List.isChain_iff_pairwise.mp (by decide +kernel)⟩
  distinct := by decide +kernel

/-- The volumes and counts of `marketDays` days are known. -/
def rotationRow (marketDays index : Nat) : MarketRow :=
  { sampleRow index with history := { (sampleRow index).history with
      ageDays := if index = 61 then 10 else 100
      marketVolumes := List.replicate marketDays 1
      marketTrades := List.replicate marketDays 1 } }

def rotationRows (marketDays : Nat) : List MarketRow := (List.range' 0 62).map (rotationRow marketDays)

theorem symbols_rotationRows (marketDays : Nat) (indices : List Nat) :
    (indices.map (rotationRow marketDays)).map MarketRow.symbol = indices.map sampleSymbol := by
  rw [List.map_map]
  rfl

def rotationEvidence (marketDays : Nat) : MarketEvidence where
  eligible := sampleSymbols 0 62
  rows := rotationRows marketDays
  distinct := rotationSymbols_sorted.imp fun h => h.ne
  listed := by
    rw [rotationRows, symbols_rotationRows]
    exact .refl _

def rotationMonday : Datetime := ⟨739851 * 86400000000, by decide⟩

def rotationTuesday : Datetime := ⟨739852 * 86400000000, by decide⟩

def rotationMembers : List (String × Datetime) :=
  [(sampleSymbol 59, ⟨739831 * 86400000000, by decide⟩)]

variable {marketDays : Nat}

theorem rotationRow_complete (index : Nat) : (rotationRow marketDays index).Complete {} :=
  sampleRow_complete index

theorem mem_sampleSymbols {symbol : String} {start count total : Nat}
    (hm : symbol ∈ sampleSymbols start count) (hle : start + count ≤ total) :
    symbol ∈ sampleSymbols 0 total := by
  obtain ⟨index, hindex, rfl⟩ := List.mem_map.mp hm
  obtain ⟨-, hlt⟩ := List.mem_range'_1.mp hindex
  exact List.mem_map_of_mem (List.mem_range'_1.mpr ⟨Nat.zero_le _, by omega⟩)

theorem rotation_eligible {symbol : String} (hm : symbol ∈ rotationActive.members) :
    symbol ∈ sampleSymbols 0 62 := by
  rcases List.mem_append.mp (mem_members.mp hm) with hm | hprobe
  · rcases List.mem_append.mp hm with hcore | hboundary
    · rcases List.mem_append.mp hcore with hold | hlast
      · exact mem_sampleSymbols hold (by decide)
      · exact @mem_sampleSymbols _ 60 1 62 hlast (by decide)
    · exact mem_sampleSymbols hboundary (by decide)
  · exact mem_sampleSymbols hprobe (by decide)

theorem rotation_trading :
    (rotationEvidence marketDays).inactive rotationActive.members = [] := by
  have hnone : (rotationActive.members.filter fun symbol =>
      symbol ∉ (rotationEvidence marketDays).eligible) = [] := by
    apply List.filter_eq_nil_iff.mpr
    intro symbol hm hout
    exact of_decide_eq_true hout (rotation_eligible hm)
  rw [MarketEvidence.inactive, hnone]
  rfl

theorem rotationRow_mature {index : Nat} (h : index ≠ 61) : (rotationRow marketDays index).Mature {} := by
  refine ⟨?_, rfl⟩
  show 30 ≤ if index = 61 then 10 else 100
  rw [if_neg h]
  decide

theorem rotation_complete :
    incompleteActive rotationActive (rotationEvidence marketDays) {} = [] := by
  apply List.eq_nil_iff_forall_not_mem.mpr
  intro symbol hm
  rw [incompleteActive, mem_sortedSymbols, List.mem_filter, decide_eq_true_eq] at hm
  obtain ⟨hm, -, hincomplete⟩ := hm
  unfold Incomplete at hincomplete
  split at hincomplete
  · rename_i hnone
    obtain ⟨index, hindex, rfl⟩ := List.mem_map.mp (rotation_eligible hm)
    exact List.find?_eq_none.mp hnone (rotationRow marketDays index)
      (List.mem_map_of_mem hindex) (decide_eq_true rfl)
  · rename_i row hrow
    have hsymbol : row.symbol = symbol := by simpa using List.find?_some hrow
    obtain ⟨index, -, rfl⟩ := List.mem_map.mp (List.mem_of_find?_eq_some hrow)
    rcases hincomplete with hrow | ⟨hmember, hrow⟩ | ⟨-, hrow⟩
    · exact hrow (rotationRow_complete index)
    · refine hrow (rotationRow_mature fun hyoung => ?_)
      subst hyoung
      have hnew : sampleSymbol 61 ∉ rotationActive.core ++ rotationActive.boundary := by
        decide +kernel
      have hyoung : symbol = sampleSymbol 61 := hsymbol.symm
      rw [hyoung] at hmember
      exact hnew hmember
    · exact hrow ⟨show 7 ≤ 14 by decide, rfl⟩

theorem rankMarketRows_rotation {indices : List Nat}
    (hsorted : (indices.map sampleSymbol).Pairwise (· < ·)) :
    rankMarketRows (indices.map (rotationRow marketDays)) =
      .ok (indices.map (rotationRow marketDays)) := by
  have hone : ∀ metric ∈ ([
      ⟨fun row => (row.history.q25QuoteVolume : MetricValue), true⟩,
      ⟨fun row => (row.history.q25Trades : MetricValue), true⟩,
      ⟨fun row => row.thinDepth10bps, true⟩, ⟨fun row => row.thinDepth50bps, true⟩,
      ⟨fun row => row.spreadQ95Bps, false⟩] : List (Metric MarketRow DecimalNumber)),
      ∀ row ∈ indices.map (rotationRow marketDays),
        metric.value row = (((1 : Rat) : MetricValue) : DecimalNumber) := by
    intro metric hmetric row hm
    obtain ⟨index, -, rfl⟩ := List.mem_map.mp hm
    simp only [List.mem_cons, List.not_mem_nil, or_false] at hmetric
    rcases hmetric with rfl | rfl | rfl | rfl | rfl <;> rfl
  apply rankCrossSection_tied
  · rwa [symbols_rotationRows]
  · exact List.cons_ne_nil _ _
  · intro metric hmetric _ row hm
    rw [hone metric hmetric row hm, contextNumber_coe, contextRound_one]
    exact ⟨_, rfl⟩
  · intro metric hmetric row hrow other hother
    rw [hone metric hmetric row hrow, hone metric hmetric other hother]

theorem rotationRows_split :
    rotationRows marketDays =
      (List.range' 0 61).map (rotationRow marketDays) ++ [rotationRow marketDays 61] := by
  rw [rotationRows, ← List.map_singleton, ← List.map_append]
  rfl

theorem filter_rotationRows {keep : MarketRow → Bool}
    (hold : ∀ index ≠ 61, keep (rotationRow marketDays index) = true) :
    (rotationRows marketDays).filter keep = (List.range' 0 61).map (rotationRow marketDays) ++
      [rotationRow marketDays 61].filter keep := by
  rw [rotationRows_split, List.filter_append]
  congr 1
  apply List.filter_eq_self.mpr
  intro row hm
  obtain ⟨index, hindex, rfl⟩ := List.mem_map.mp hm
  exact hold index (List.mem_range'_1.mp hindex).2.ne

theorem rotationSymbols_old : ((List.range' 0 61).map sampleSymbol).Pairwise (· < ·) := by
  have h := rotationSymbols_sorted
  rw [← sampleSymbols_append 61 1, List.pairwise_append] at h
  exact h.1

theorem rotation_mature : maturePool (rotationRows marketDays) {} =
    .ok ((List.range' 0 61).map (rotationRow marketDays)) := by
  have hyoung : ¬ (rotationRow marketDays 61).Mature {} := fun h =>
    absurd h.1 (show ¬ 30 ≤ 10 by decide)
  unfold maturePool
  rw [filter_rotationRows fun index hindex =>
      decide_eq_true ⟨rotationRow_mature hindex, rotationRow_complete index⟩,
    List.filter_cons_of_neg (fun h => hyoung (of_decide_eq_true h).1), List.filter_nil,
    List.append_nil]
  exact rankMarketRows_rotation rotationSymbols_old

theorem rotation_probes : probePool (rotationRows marketDays) {} =
    .ok (rotationRow marketDays 61 :: (List.range' 0 61).map (rotationRow marketDays)) := by
  have heligible : ((rotationRows marketDays).filter fun row =>
      row.Observed {} ∧ row.Complete {}) = rotationRows marketDays := by
    apply List.filter_eq_self.mpr
    intro row hm
    obtain ⟨index, -, rfl⟩ := List.mem_map.mp hm
    exact decide_eq_true ⟨⟨show 7 ≤ 14 by decide, rfl⟩, rotationRow_complete index⟩
  have hage : ∀ index ≠ 61, (rotationRow marketDays index).ageDays = 100 := fun _ h => if_neg h
  have hrecent : ((rotationRows marketDays).filter fun row => row.ageDays < 30) =
      [61].map (rotationRow marketDays) := by
    rw [rotationRows_split, List.filter_append]
    have hnone : (((List.range' 0 61).map (rotationRow marketDays)).filter fun row =>
        row.ageDays < 30) = [] := by
      apply List.filter_eq_nil_iff.mpr
      intro row hm
      obtain ⟨index, hindex, rfl⟩ := List.mem_map.mp hm
      rw [hage index (List.mem_range'_1.mp hindex).2.ne]
      decide
    rw [hnone]
    rfl
  have hfallback : ((rotationRows marketDays).filter fun row => 30 ≤ row.ageDays) =
      (List.range' 0 61).map (rotationRow marketDays) := by
    rw [filter_rotationRows fun index hindex => by
      rw [hage index hindex]
      rfl]
    exact List.append_nil _
  unfold probePool
  dsimp only
  rw [heligible, hrecent, hfallback, bind_eq (rankMarketRows_rotation (List.pairwise_singleton _ _)) rfl,
    bind_eq (rankMarketRows_rotation rotationSymbols_old) rfl]
  rfl

theorem rotation_context : marketContext (rotationRows 35) {} = .ok (steadyContext 1 62) := by
  have hlimit : divide 1 (5 / 4) = .ok (4 / 5) := by
    rw [divide_of_ne _ (by norm_num)]
    have hdigits := @contextRound_of_digits (4 / 5) 8 (-1) (by decide) (by decide) (by decide)
      (by norm_num)
    norm_num at hdigits ⊢
    exact hdigits
  have htwo : contextRound (2 * 1) = .ok (2 * 1) :=
    @contextRound_of_digits (2 * 1) 2 0 (by decide) (by decide) (by decide) (by norm_num)
  have hsteady : ∀ row ∈ (rotationRows 35).map fun row =>
      (⟨row.history.marketVolumes, row.history.marketTrades⟩ : ActivitySeries),
      Steady (28 + confirmationDays) row 1 1 := by
    intro series hm
    obtain ⟨row, hrow, rfl⟩ := List.mem_map.mp hm
    obtain ⟨index, -, rfl⟩ := List.mem_map.mp hrow
    refine ⟨rfl, rfl, one_pos, Nat.one_pos, fun number hnumber => ?_⟩
    simp only [List.mem_cons, List.not_mem_nil, or_false, Nat.cast_one] at hnumber
    rcases hnumber with rfl | rfl | rfl | rfl
    · exact contextRound_one
    · exact htwo
    · exact contextRound_one
    · exact htwo
  have hlength : ((rotationRows 35).map fun row =>
      (⟨row.history.marketVolumes, row.history.marketTrades⟩ : ActivitySeries)).length = 62 := by
    rw [List.length_map, rotationRows, List.length_map, List.length_range']
  have h := @evaluateMarketContext_steady _ 1 1 28 (5 / 4) (4 / 5)
    (List.ne_nil_of_length_pos (by rw [hlength]; decide)) hsteady (by decide) (by norm_num) hlimit
    (by norm_num) (7 / 10) 60 (by rw [hlength]; decide)
  rw [hlength] at h
  exact h

/-- What the selection does of these days, from the core on. -/
theorem rotation_selects {effectiveAt : Datetime} {core probe boundary : List String}
    (hcore : selectCore rotationActive (rotationEvidence 35) effectiveAt [] {} true
      (sampleSymbols 0 61) = .ok core)
    (hpreferred : 5 ≤ ((sampleSymbol 61 :: sampleSymbols 0 61).filter fun symbol =>
      symbol ∉ core).length)
    (hprobe : selectProbe rotationActive (rotationEvidence 35) effectiveAt rotationMembers {} true
      core ((sampleSymbol 61 :: sampleSymbols 0 61).filter fun symbol => symbol ∉ core) = .ok probe)
    (hranked : 5 ≤ ((sampleSymbols 0 61).filter fun symbol =>
      symbol ∉ core ∧ symbol ∉ probe).length)
    (hboundary : selectBoundary rotationActive (rotationEvidence 35) effectiveAt rotationMembers {}
      true core probe ((sampleSymbols 0 61).filter fun symbol => symbol ∉ core ∧ symbol ∉ probe) =
        .ok boundary) :
    ∃ result, selectRollingUniverse rotationActive (rotationEvidence 35) effectiveAt rotationMembers
        [] {} = .ok result ∧
      result.core = sortedSymbols core ∧ result.boundary = sortedSymbols boundary ∧
      result.probe = sortedSymbols probe := by
  have hmature : ((List.range' 0 61).map (rotationRow 35)).map MarketRow.symbol =
      sampleSymbols 0 61 := symbols_rotationRows 35 _
  have hprobes : (rotationRow 35 61 :: (List.range' 0 61).map (rotationRow 35)).map MarketRow.symbol =
      sampleSymbol 61 :: sampleSymbols 0 61 := congrArg (sampleSymbol 61 :: ·) hmature
  have hreserve : ¬ (((List.range' 0 61).map (rotationRow 35)).length < 55 ∨
      (rotationRow 35 61 :: (List.range' 0 61).map (rotationRow 35)).length < 5) := by
    rw [List.length_cons, List.length_map, List.length_range']
    decide
  have hfree : freezeReason {} (steadyContext 1 62) = none := rfl
  refine exists_bind rotation_mature (exists_bind rotation_probes (exists_bind rotation_context ?_))
  dsimp only
  rw [rotation_complete, if_neg (not_not.mpr rfl), if_neg hreserve, hfree, Option.isNone_none,
    if_neg (fun h => Bool.noConfusion h.1), hmature, hprobes]
  refine exists_bind hcore ?_
  rw [if_neg (not_lt.mpr hpreferred)]
  refine exists_bind hprobe ?_
  rw [if_neg (not_lt.mpr hranked)]
  exact exists_bind hboundary ⟨_, rfl, rfl, rfl, rfl⟩

theorem rotation_monday : ∃ result, selectRollingUniverse rotationActive (rotationEvidence 35)
    rotationMonday rotationMembers [] {} = .ok result ∧
      result.core = sortedSymbols (sampleSymbols 1 49 ++ [sampleSymbol 0]) ∧
      result.boundary = sortedSymbols (sampleSymbols 50 5) ∧
      result.probe = sortedSymbols (sampleSymbols 55 4 ++ [sampleSymbol 61]) := by
  have hcore : selectCore rotationActive (rotationEvidence 35) rotationMonday [] {} true
      (sampleSymbols 0 61) = .ok (sampleSymbols 1 49 ++ [sampleSymbol 0]) := by
    unfold selectCore
    dsimp only
    rw [rotation_trading, bind_eq (replaceInactive_nil _ _) rfl, Finset.sdiff_self, Finset.card_empty]
    decide +kernel
  have hprobe : selectProbe rotationActive (rotationEvidence 35) rotationMonday rotationMembers {}
      true (sampleSymbols 1 49 ++ [sampleSymbol 0])
      ((sampleSymbol 61 :: sampleSymbols 0 61).filter fun symbol =>
        symbol ∉ sampleSymbols 1 49 ++ [sampleSymbol 0]) =
        .ok (sampleSymbols 55 4 ++ [sampleSymbol 61]) := by
    unfold selectProbe
    rw [rotation_trading]
    decide +kernel
  have hboundary : selectBoundary rotationActive (rotationEvidence 35) rotationMonday
      rotationMembers {} true (sampleSymbols 1 49 ++ [sampleSymbol 0])
      (sampleSymbols 55 4 ++ [sampleSymbol 61]) ((sampleSymbols 0 61).filter fun symbol =>
        symbol ∉ sampleSymbols 1 49 ++ [sampleSymbol 0] ∧
          symbol ∉ sampleSymbols 55 4 ++ [sampleSymbol 61]) = .ok (sampleSymbols 50 5) := by
    unfold selectBoundary protectedBoundary
    rw [rotation_trading]
    decide +kernel
  exact rotation_selects hcore (by decide +kernel) hprobe (by decide +kernel) hboundary

theorem rotation_tuesday : ∃ result, selectRollingUniverse rotationActive (rotationEvidence 35)
    rotationTuesday rotationMembers [] {} = .ok result ∧
      result.core = sortedSymbols rotationActive.core ∧
      result.boundary = sortedSymbols (sampleSymbols 50 5) ∧
      result.probe = sortedSymbols (sampleSymbols 55 4 ++ [sampleSymbol 61]) := by
  have hcore : selectCore rotationActive (rotationEvidence 35) rotationTuesday [] {} true
      (sampleSymbols 0 61) = .ok rotationActive.core := by
    unfold selectCore
    dsimp only
    rw [rotation_trading, bind_eq (replaceInactive_nil _ _) rfl, if_neg (by decide)]
    rfl
  have hprobe : selectProbe rotationActive (rotationEvidence 35) rotationTuesday rotationMembers {}
      true rotationActive.core ((sampleSymbol 61 :: sampleSymbols 0 61).filter fun symbol =>
        symbol ∉ rotationActive.core) = .ok (sampleSymbols 55 4 ++ [sampleSymbol 61]) := by
    unfold selectProbe
    rw [rotation_trading]
    decide +kernel
  have hboundary : selectBoundary rotationActive (rotationEvidence 35) rotationTuesday
      rotationMembers {} true rotationActive.core (sampleSymbols 55 4 ++ [sampleSymbol 61])
      ((sampleSymbols 0 61).filter fun symbol => symbol ∉ rotationActive.core ∧
        symbol ∉ sampleSymbols 55 4 ++ [sampleSymbol 61]) = .ok (sampleSymbols 50 5) := by
    unfold selectBoundary protectedBoundary
    rw [rotation_trading]
    decide +kernel
  exact rotation_selects hcore (by decide +kernel) hprobe (by decide +kernel) hboundary

/-- No day of the market is known. -/
theorem rotation_frozen : ∃ result, selectRollingUniverse rotationActive (rotationEvidence 0)
    rotationTuesday rotationMembers [] {} = .ok result ∧
      freezeReason {} result.marketContext ≠ none := by
  have hpanel : (((rotationRows 0).map fun row =>
      (⟨row.history.marketVolumes, row.history.marketTrades⟩ : ActivitySeries)).filterM
        (inPanel 28)) = .ok [] := by
    rw [filterM_eq (q := fun _ => false), List.filter_false]
    intro series hm
    obtain ⟨row, hrow, rfl⟩ := List.mem_map.mp hm
    obtain ⟨index, -, rfl⟩ := List.mem_map.mp hrow
    rfl
  have hreserve : ¬ (((List.range' 0 61).map (rotationRow 0)).length < 55 ∨
      (rotationRow 0 61 :: (List.range' 0 61).map (rotationRow 0)).length < 5) := by
    rw [List.length_cons, List.length_map, List.length_range']
    decide
  refine exists_bind rotation_mature (exists_bind rotation_probes
    (exists_bind (bind_eq hpanel rfl) ?_))
  dsimp only
  rw [rotation_complete, if_neg (not_not.mpr rfl), if_neg hreserve,
    if_pos ⟨rfl, rotation_trading⟩]
  exact ⟨_, rfl, Option.some_ne_none _⟩

/-- On the Monday the last core symbol, which has dwelt, is swapped for the first symbol, and the
last probe symbol leaves. On the Tuesday the core stays. With a frozen context nothing changes. -/
theorem selectRollingUniverse_limits_days :
    (∃ result mature swaps, selectRollingUniverse rotationActive (rotationEvidence 35)
        rotationMonday rotationMembers [] {} = .ok result ∧
      maturePool (rotationRows 35) {} = .ok mature ∧
      CoreSwaps {} (rankOrLast (poolRanks (mature.map MarketRow.symbol)))
        (CoreDwelt rotationActive rotationMonday [] {}) rotationActive.core result.core swaps ∧
      sampleSymbol 0 ∈ result.core ∧ sampleSymbol 60 ∉ result.core ∧
      sampleSymbol 59 ∉ result.members ∧
      ∃ since, KeyedDict.get id (sampleSymbol 59) rotationMembers = some since ∧
        since.micros + 48 * 3600000000 ≤ rotationMonday.micros) ∧
    (∃ result, selectRollingUniverse rotationActive (rotationEvidence 35)
        rotationTuesday rotationMembers [] {} = .ok result ∧
      result.core = rotationActive.core ∧ sampleSymbol 61 ∈ result.entrants rotationActive ∧
      (result.entrants rotationActive).card ≤ 2) ∧
    ∃ result, selectRollingUniverse rotationActive (rotationEvidence 0)
        rotationTuesday rotationMembers [] {} = .ok result ∧
      freezeReason {} result.marketContext ≠ none ∧ result.KeepsActive rotationActive := by
  refine ⟨?_, ?_, ?_⟩
  · obtain ⟨result, hok, hcore, hboundary, hprobe⟩ := rotation_monday
    obtain ⟨-, hswaps, hleaves, -⟩ := selectRollingUniverse_limits admitted_default hok
    obtain ⟨mature, swaps, hmature, -, -, hswaps⟩ := hswaps rotation_trading (by decide)
    have hgone : sampleSymbol 59 ∉ result.members := by
      rw [mem_members_iff, hcore, hboundary, hprobe, mem_sortedSymbols, mem_sortedSymbols,
        mem_sortedSymbols]
      decide +kernel
    refine ⟨result, mature, swaps, hok, hmature, hswaps, ?_, ?_, hgone, ?_⟩
    · rw [hcore, mem_sortedSymbols]
      exact List.mem_append_right _ (List.mem_singleton_self _)
    · rw [hcore, mem_sortedSymbols]
      decide +kernel
    · apply hleaves (sampleSymbol 59) _ _ hgone
      · exact List.mem_append_right _ (by decide +kernel)
      · rw [rotation_trading]
        exact List.not_mem_nil
  · obtain ⟨result, hok, hcore, hboundary, hprobe⟩ := rotation_tuesday
    obtain ⟨hsteady, -, -, -⟩ := selectRollingUniverse_limits admitted_default hok
    obtain ⟨hsame, hfew⟩ := hsteady rotation_trading (by decide)
    refine ⟨result, hok, hsame, ?_, hfew⟩
    refine Finset.mem_sdiff.mpr ⟨?_, ?_⟩
    · rw [List.mem_toFinset, mem_members_iff, hprobe, mem_sortedSymbols]
      exact .inr (.inr (List.mem_append_right _ (List.mem_singleton_self _)))
    · rw [List.mem_toFinset, mem_members]
      decide +kernel
  · obtain ⟨result, hok, hfrozen⟩ := rotation_frozen
    obtain ⟨-, -, -, hkeeps⟩ := selectRollingUniverse_limits admitted_default hok
    exact ⟨result, hok, hfrozen, (hkeeps hfrozen).1 rotation_trading⟩

end Sample

end MiryFormal
