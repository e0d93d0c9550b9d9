import MiryFormal.Collector.Sharding
import Mathlib.Data.List.Dedup
import Mathlib.Data.String.Basic

/-!
# Sharders over whole runs

A collector makes sharders, copies them, asks them for the shards of a new set of symbols and
lets them rebalance shards that were returned before. Each sharder is looked at together with
what it returned last.
-/

namespace MiryFormal

set_option autoImplicit false

variable {Symbol : Type} [LinearOrder Symbol]

/-- A sharder, and the instruments and shards of its last call. -/
structure HeldSharder (Symbol : Type) where
  sharder : TrafficSharder Symbol
  returned : Option (List Symbol × List (List Symbol)) := none

inductive SharderCall (Symbol : Type) where
  | create (messageRates : List (Symbol × Int))
  | copy (index : Nat)
  | shards (index : Nat) (instruments : List Symbol)
  /-- The sharder rebalances what the sharder at `source` returned last. -/
  | rebalance (index source : Nat)

/-- What is known of a sharder and its last call. -/
structure HeldSharder.Holds (symbolCount shardCount : Nat) (held : HeldSharder Symbol) : Prop where
  count : held.sharder.count = shardCount
  fresh : held.returned = none → held.sharder.assignments = []
  returned : ∀ instruments shards, held.returned = some (instruments, shards) →
    instruments.Nodup ∧ instruments.length = symbolCount ∧
      ShardPartition instruments shardCount (TrafficSharder.maxSymbols symbolCount shardCount)
        shards ∧
      sortShards shards = shards ∧ Assigns held.sharder.assignments shards

namespace TrafficSharder
variable {sharder : TrafficSharder Symbol} {instruments : List Symbol}
  {symbolCount shardCount : Nat}

theorem sortShards_idem (shards : List (List Symbol)) :
    sortShards (sortShards shards) = sortShards shards := by
  unfold sortShards
  rw [List.map_map]
  apply List.map_congr_left
  intro shard _
  exact (List.pairwise_insertionSort _ shard).insertionSort_eq

theorem holds_returned (hcount : sharder.count = shardCount) (hnodup : instruments.Nodup)
    (hlength : instruments.length = symbolCount) {shards : List (List Symbol)}
    (hpartition : ShardPartition instruments shardCount (maxSymbols symbolCount shardCount) shards)
    (hassigns : Assigns sharder.assignments shards) :
    HeldSharder.Holds symbolCount shardCount
      ⟨sharder, some (instruments, sortShards shards)⟩ := by
  refine ⟨hcount, nofun, fun instruments' shards' heq => ?_⟩
  cases heq
  exact ⟨hnodup, hlength, hpartition.sort, sortShards_idem shards, hassigns.sort⟩

theorem shards_ok (hpos : 0 < shardCount) (hcount : sharder.count = shardCount)
    (hnodup : instruments.Nodup) (hlength : instruments.length = symbolCount)
    (hle : shardCount ≤ symbolCount) (hkeys : (sharder.assignments.map Prod.fst).Nodup)
    (hcap : ∀ index, (members sharder.assignments index).length ≤
      maxSymbols symbolCount shardCount) :
    ∃ after shards, sharder.shards instruments = .ok (after, shards) ∧
      HeldSharder.Holds symbolCount shardCount ⟨after, some (instruments, shards)⟩ ∧
      ∀ symbol index, (symbol, index) ∈ sharder.assignments → symbol ∈ instruments →
        index < shardCount → ∃ shard, shards[index]? = some shard ∧ symbol ∈ shard := by
  have hmin : min sharder.count instruments.length = shardCount := by omega
  obtain ⟨placement, pairs, hloop, hfilled, hassigned, hperm, hcapped, hstays⟩ :=
    placed_of_capped hpos hnodup hlength hkeys hcap
  have hpartition := shardPartition_of_filled hfilled hperm hcapped
  have hassigns := assigns_of_filled hfilled hassigned (hperm.nodup_iff.mpr hnodup)
  unfold TrafficSharder.shards
  dsimp only
  rw [hmin, if_neg hpos.ne', List.Nodup.dedup hnodup, hlength]
  by_cases hinitial : sharder.assignments = []
  · have hrearranged : Rearranged sharder.messageRate placement.shards
        (improveBalance sharder.messageRate placement.shards placement.loads none) := by
      obtain ⟨made, hrun, -⟩ := improveBalance_run sharder.messageRate placement.shards
        placement.loads none
      rw [hfilled.loads] at hrun ⊢
      exact .run hrun
    have himproved := partition_rearranged hpartition hrearranged
    refine ⟨_, _, bind_eq hloop (if_pos hinitial), ?_, fun symbol index hm => ?_⟩
    · apply holds_returned
      · exact hcount
      · exact hnodup
      · exact hlength
      · exact himproved
      · exact assigns_assignmentsOf (himproved.symbols.nodup_iff.mpr hnodup)
    · rw [hinitial] at hm
      cases hm
  · refine ⟨_, _, bind_eq hloop (if_neg hinitial), ?_, fun symbol index hm hin hlt => ?_⟩
    · apply holds_returned
      · exact hcount
      · exact hnodup
      · exact hlength
      · exact hpartition
      · exact hassigns
    · have hpair := hstays (mem_stays.mpr ⟨hm, hin, hlt⟩)
      exact (hassigns.sort.mem_iff symbol index).mp (hassigned.mem_iff.mpr hpair)

/-- Two partitions in shards are the same when every shard of the one is part of the other's. -/
theorem shards_eq_of_subset {maxSymbols : Nat} {before after : List (List Symbol)}
    (hbefore : ShardPartition instruments shardCount maxSymbols before)
    (hafter : ShardPartition instruments shardCount maxSymbols after)
    (hnodup : instruments.Nodup) (hsorted : sortShards before = before)
    (hsorted' : sortShards after = after)
    (hsub : ∀ (index : Nat) shard symbol, before[index]? = some shard → symbol ∈ shard →
      ∃ next, after[index]? = some next ∧ symbol ∈ next) : after = before := by
  have hassigns : Assigns (assignmentsOf after) after :=
    assigns_assignmentsOf (hafter.symbols.nodup_iff.mpr hnodup)
  have hpairwise : ∀ {shards : List (List Symbol)}, sortShards shards = shards →
      ∀ shard ∈ shards, shard.Pairwise (· ≤ ·) := by
    intro shards heq shard hm
    rw [← heq] at hm
    obtain ⟨unsorted, -, rfl⟩ := List.mem_map.mp hm
    exact List.pairwise_insertionSort _ unsorted
  have hshardNodup : ∀ {shards : List (List Symbol)}, shards.flatten.Perm instruments →
      ∀ shard ∈ shards, shard.Nodup := by
    intro shards hperm shard hm
    exact (List.nodup_flatten.mp (hperm.nodup_iff.mpr hnodup)).1 shard hm
  apply List.ext_getElem (hafter.length.trans hbefore.length.symm)
  intro index hlt hlt'
  have hm := List.getElem_mem hlt
  have hm' := List.getElem_mem hlt'
  apply List.Perm.eq_of_pairwise' (hpairwise hsorted' _ hm) (hpairwise hsorted _ hm')
  apply (List.perm_ext_iff_of_nodup (hshardNodup hafter.symbols _ hm)
    (hshardNodup hbefore.symbols _ hm')).mpr
  intro symbol
  constructor
  · intro hin
    -- the symbol has a shard in the other partition, and from there it comes to this one
    have hflat : symbol ∈ before.flatten :=
      hbefore.symbols.mem_iff.mpr (hafter.symbols.mem_iff.mp (List.mem_flatten_of_mem hm hin))
    obtain ⟨shard, hshard, hinshard⟩ := List.mem_flatten.mp hflat
    obtain ⟨other, hother⟩ := List.mem_iff_getElem?.mp hshard
    have hpair := (hassigns.mem_iff symbol other).mpr (hsub other shard symbol hother hinshard)
    have hpair' := (hassigns.mem_iff symbol index).mpr
      ⟨_, List.getElem?_eq_getElem hlt, hin⟩
    have hindex : other = index := by
      have hget := KeyedDict.get_of_mem hassigns.distinct hpair
      rw [KeyedDict.get_of_mem hassigns.distinct hpair'] at hget
      exact (Option.some.inj hget).symm
    rw [hindex, List.getElem?_eq_getElem hlt'] at hother
    rw [Option.some.inj hother]
    exact hinshard
  · intro hin
    obtain ⟨next, hnext, hinnext⟩ := hsub index _ symbol (List.getElem?_eq_getElem hlt') hin
    rw [List.getElem?_eq_getElem hlt] at hnext
    rw [Option.some.inj hnext]
    exact hinnext

theorem shards_returned {before : List Symbol} {current : List (List Symbol)}
    (hpos : 0 < shardCount) (hle : shardCount ≤ symbolCount)
    (h : HeldSharder.Holds symbolCount shardCount ⟨sharder, some (before, current)⟩)
    (hperm : instruments.Perm before) :
    ∃ after, sharder.shards instruments = .ok (after, current) := by
  obtain ⟨hnodup, hlength, hpartition, hsorted, hassigns⟩ := h.returned before current rfl
  have hnodup' := hperm.nodup_iff.mpr hnodup
  obtain ⟨after, shards, heq, hafter, hstays⟩ := shards_ok hpos h.count hnodup'
    (hperm.length_eq.trans hlength) hle hassigns.distinct
    (hassigns.members_length hassigns.distinct (List.Subset.refl _) hpartition.capped)
  obtain ⟨-, -, hpartition', hsorted', -⟩ := hafter.returned instruments shards rfl
  have hcurrent : ShardPartition instruments shardCount (maxSymbols symbolCount shardCount) current :=
    ⟨hpartition.length, hpartition.symbols.trans hperm.symm, hpartition.capped⟩
  have hshards : shards = current := by
    apply shards_eq_of_subset hcurrent hpartition' hnodup' hsorted hsorted'
    intro index shard symbol hshard hm
    apply hstays symbol index
    · exact (hassigns.mem_iff symbol index).mpr ⟨shard, hshard, hm⟩
    · exact hcurrent.symbols.mem_iff.mp (List.mem_flatten_of_mem (List.mem_of_getElem? hshard) hm)
    · rw [← hpartition.length]
      exact (List.getElem?_eq_some_iff.mp hshard).1
  rw [hshards] at heq
  exact ⟨after, heq⟩

end TrafficSharder

/-! ## Rebalancing -/

/-- Two symbols, at most, have another shard than before: they have changed places. -/
def OnePairMoved (before after : List (List Symbol)) : Prop :=
  after = before ∨ ∃ leftSymbol rightSymbol, ∀ symbol, symbol ≠ leftSymbol → symbol ≠ rightSymbol →
    ∀ index : Nat, (∃ shard, after[index]? = some shard ∧ symbol ∈ shard) ↔
      ∃ shard, before[index]? = some shard ∧ symbol ∈ shard

theorem mem_replace_of_ne {shard : List Symbol} {old new symbol : Symbol} (hold : symbol ≠ old)
    (hnew : symbol ≠ new) : symbol ∈ shard.erase old ++ [new] ↔ symbol ∈ shard := by
  rw [List.mem_append, List.mem_singleton, List.mem_erase_of_ne hold]
  exact or_iff_left hnew

theorem mem_modify_replace {shards : List (List Symbol)} {old new symbol : Symbol}
    (hold : symbol ≠ old) (hnew : symbol ≠ new) (place index : Nat) :
    (∃ shard, (shards.modify place (fun shard => shard.erase old ++ [new]))[index]? = some shard ∧
      symbol ∈ shard) ↔ ∃ shard, shards[index]? = some shard ∧ symbol ∈ shard := by
  rw [List.getElem?_modify]
  cases shards[index]? with
  | none => simp
  | some shard =>
    by_cases heq : place = index
    · simp [heq, mem_replace_of_ne hold hnew]
    · simp [heq]

theorem mem_exchange {shards : List (List Symbol)} {swap : Swap Symbol} {symbol : Symbol}
    (hleft : symbol ≠ swap.leftSymbol) (hright : symbol ≠ swap.rightSymbol) (index : Nat) :
    (∃ shard, (swap.exchange shards)[index]? = some shard ∧ symbol ∈ shard) ↔
      ∃ shard, shards[index]? = some shard ∧ symbol ∈ shard := by
  unfold Swap.exchange
  rw [mem_modify_replace hright hleft, mem_modify_replace hleft hright]

theorem mem_sortShards {shards : List (List Symbol)} {symbol : Symbol} (index : Nat) :
    (∃ shard, (sortShards shards)[index]? = some shard ∧ symbol ∈ shard) ↔
      ∃ shard, shards[index]? = some shard ∧ symbol ∈ shard := by
  rw [getElem?_sortShards]
  cases shards[index]? with
  | none => simp
  | some shard => simp

theorem onePairMoved_of_run {messageRate : Symbol → Int} {made : List (Swap Symbol)}
    {before after : List (List Symbol) × List Int} (hrun : Run (SwapStep messageRate) before made after)
    (hlength : made.length ≤ 1) (hsorted : sortShards before.1 = before.1) :
    OnePairMoved before.1 (sortShards after.1) := by
  cases hrun with
  | nil => exact .inl hsorted
  | @cons _ next _ swap rest hstep hrest =>
    have hrest' : rest = [] := by
      rw [List.length_cons] at hlength
      exact List.eq_nil_of_length_eq_zero (by omega)
    subst hrest'
    cases hrest
    obtain ⟨-, rfl⟩ := hstep
    refine .inr ⟨swap.leftSymbol, swap.rightSymbol, fun symbol hleft hright index => ?_⟩
    rw [mem_sortShards]
    exact mem_exchange hleft hright index

namespace TrafficSharder
variable {belowTrigger : Int → Int → Except String Bool} {sharder : TrafficSharder Symbol}
  {instruments : List Symbol} {symbolCount shardCount : Nat} {current : List (List Symbol)}

/-- A rebalance of shards that were returned fails only where the comparison of the loads does. -/
theorem rebalance_returned (hcount : sharder.count = shardCount) (hle : shardCount ≤ symbolCount)
    {given : TrafficSharder Symbol}
    (h : HeldSharder.Holds symbolCount shardCount ⟨given, some (instruments, current)⟩) :
    (∃ error,
      belowTrigger ((current.map (shardLoad sharder.messageRate)).max?.getD 0 * shardCount)
        (current.map (shardLoad sharder.messageRate)).sum = .error error ∧
      sharder.rebalance belowTrigger instruments current = .error error) ∨
    ∃ after shards, sharder.rebalance belowTrigger instruments current = .ok (after, shards) ∧
      OnePairMoved current shards ∧
      HeldSharder.Holds symbolCount shardCount ⟨after, some (instruments, shards)⟩ := by
  obtain ⟨hnodup, hlength, hpartition, hsorted, -⟩ := h.returned instruments current rfl
  have hmin : min sharder.count instruments.length = shardCount := by omega
  have hsame : ¬ (current.flatten.length ≠ instruments.length ∨
      ¬ (current.flatten ⊆ instruments ∧ instruments ⊆ current.flatten)) := by
    rw [not_or, not_not, not_not]
    exact ⟨hpartition.symbols.length_eq, hpartition.symbols.subset, hpartition.symbols.symm.subset⟩
  have hloads := improveBalance_run sharder.messageRate current
    (current.map (shardLoad sharder.messageRate)) (some 1)
  obtain ⟨made, hrun, -, hbound, -⟩ := hloads
  -- the shards are the given ones, or those after the swap
  have hfinish : ∀ (below : Bool) shards, shards = (if below then current else
        (improveBalance sharder.messageRate current
          (current.map (shardLoad sharder.messageRate)) (some 1)).1) →
      OnePairMoved current (sortShards shards) ∧
      HeldSharder.Holds symbolCount shardCount
        ⟨{ sharder with assignments := assignmentsOf shards },
          some (instruments, sortShards shards)⟩ := by
    intro below shards heq
    have hshards : ShardPartition instruments shardCount (maxSymbols symbolCount shardCount) shards ∧
        OnePairMoved current (sortShards shards) := by
      subst heq
      cases below with
      | true => exact ⟨hpartition, .inl hsorted⟩
      | false => exact ⟨partition_rearranged hpartition (.run hrun),
          onePairMoved_of_run hrun (hbound 1 rfl) hsorted⟩
    refine ⟨hshards.2, ?_⟩
    apply holds_returned
    · exact hcount
    · exact hnodup
    · exact hlength
    · exact hshards.1
    · exact assigns_assignmentsOf (hshards.1.symbols.nodup_iff.mpr hnodup)
  unfold rebalance
  dsimp only
  rw [hmin, if_neg (not_not.mpr hpartition.length), List.Nodup.dedup hnodup, if_neg hsame]
  by_cases hsmall : shardCount < 2
  · rw [if_pos hsmall]
    exact .inr ⟨_, _, rfl, hfinish true _ rfl⟩
  · rw [if_neg hsmall]
    cases hbelow : belowTrigger
        ((current.map (shardLoad sharder.messageRate)).max?.getD 0 * shardCount)
        (current.map (shardLoad sharder.messageRate)).sum with
    | error error => exact .inl ⟨error, rfl, rfl⟩
    | ok below => exact .inr ⟨_, _, rfl, hfinish below _ rfl⟩

end TrafficSharder

/-! ## Runs -/

section Runs
variable {belowTrigger : Int → Int → Except String Bool} {symbolCount shardCount : Nat}
  {pool pool' : List (HeldSharder Symbol)} {calls : List (SharderCall Symbol)}

/-- One call of one of the sharders in the pool. -/
inductive SharderStep (belowTrigger : Int → Int → Except String Bool)
    (symbolCount shardCount : Nat) :
    List (HeldSharder Symbol) → SharderCall Symbol → List (HeldSharder Symbol) → Prop where
  | create (pool : List (HeldSharder Symbol)) (messageRates : List (Symbol × Int))
      (count_pos : 1 ≤ shardCount) :
      SharderStep belowTrigger symbolCount shardCount pool (.create messageRates)
        (pool ++ [{ sharder := { count := shardCount, messageRates, count_pos } }])
  | copy {pool : List (HeldSharder Symbol)} {index : Nat} {held : HeldSharder Symbol} :
      pool[index]? = some held →
      SharderStep belowTrigger symbolCount shardCount pool (.copy index)
        (pool ++ [{ held with sharder := held.sharder.copy }])
  | shards {pool : List (HeldSharder Symbol)} {index : Nat} {held : HeldSharder Symbol}
      {instruments : List Symbol} {after : TrafficSharder Symbol} {shards : List (List Symbol)} :
      pool[index]? = some held → instruments.Nodup → instruments.length = symbolCount →
      held.sharder.shards instruments = .ok (after, shards) →
      SharderStep belowTrigger symbolCount shardCount pool (.shards index instruments)
        (pool.set index ⟨after, some (instruments, shards)⟩)
  | rebalance {pool : List (HeldSharder Symbol)} {index source : Nat}
      {held given : HeldSharder Symbol} {instruments : List Symbol}
      {after : TrafficSharder Symbol} {current shards : List (List Symbol)} :
      pool[index]? = some held → pool[source]? = some given →
      given.returned = some (instruments, current) →
      held.sharder.rebalance belowTrigger instruments current = .ok (after, shards) →
      SharderStep belowTrigger symbolCount shardCount pool (.rebalance index source)
        (pool.set index ⟨after, some (instruments, shards)⟩)

theorem HeldSharder.Holds.capped {held : HeldSharder Symbol}
    (h : held.Holds symbolCount shardCount) :
    (held.sharder.assignments.map Prod.fst).Nodup ∧ ∀ index,
      (members held.sharder.assignments index).length ≤
        TrafficSharder.maxSymbols symbolCount shardCount := by
  cases hreturned : held.returned with
  | none =>
    rw [h.fresh hreturned]
    exact ⟨List.nodup_nil, fun index => Nat.zero_le _⟩
  | some value =>
    obtain ⟨-, -, hpartition, -, hassigns⟩ := h.returned value.1 value.2 hreturned
    exact ⟨hassigns.distinct, hassigns.members_length hassigns.distinct (List.Subset.refl _)
      hpartition.capped⟩

theorem holds_set {index : Nat} {held : HeldSharder Symbol}
    (hpool : ∀ held ∈ pool, held.Holds symbolCount shardCount)
    (hheld : held.Holds symbolCount shardCount) :
    ∀ other ∈ pool.set index held, other.Holds symbolCount shardCount := by
  intro other hm
  cases List.mem_or_eq_of_mem_set hm with
  | inl hm => exact hpool other hm
  | inr heq =>
    rw [heq]
    exact hheld

theorem holds_snoc {held : HeldSharder Symbol}
    (hpool : ∀ held ∈ pool, held.Holds symbolCount shardCount)
    (hheld : held.Holds symbolCount shardCount) :
    ∀ other ∈ pool ++ [held], other.Holds symbolCount shardCount := by
  intro other hm
  cases List.mem_append.mp hm with
  | inl hm => exact hpool other hm
  | inr hm =>
    rw [List.mem_singleton.mp hm]
    exact hheld

theorem SharderStep.holds (hpos : 0 < shardCount) (hle : shardCount ≤ symbolCount)
    {call : SharderCall Symbol} (hpool : ∀ held ∈ pool, held.Holds symbolCount shardCount)
    (hstep : SharderStep belowTrigger symbolCount shardCount pool call pool') :
    ∀ held ∈ pool', held.Holds symbolCount shardCount := by
  cases hstep with
  | create messageRates count_pos => exact holds_snoc hpool ⟨rfl, fun _ => rfl, nofun⟩
  | @copy index held hindex =>
    have hheld := hpool held (List.mem_of_getElem? hindex)
    exact holds_snoc hpool ⟨hheld.count, hheld.fresh, hheld.returned⟩
  | @shards index held instruments after shards hindex hnodup hlength heq =>
    have hheld := hpool held (List.mem_of_getElem? hindex)
    obtain ⟨after', shards', heq', hafter, -⟩ := TrafficSharder.shards_ok hpos hheld.count hnodup
      hlength hle hheld.capped.1 hheld.capped.2
    rw [heq] at heq'
    cases heq'
    exact holds_set hpool hafter
  | @rebalance index source held given instruments after current shards hindex hsource hgiven heq =>
    have hheld := hpool held (List.mem_of_getElem? hindex)
    have hsource := hpool given (List.mem_of_getElem? hsource)
    have hgiven' : HeldSharder.Holds symbolCount shardCount
        ⟨given.sharder, some (instruments, current)⟩ := hgiven ▸ hsource
    rcases TrafficSharder.rebalance_returned hheld.count hle hgiven' with
      ⟨error, -, hfail⟩ | ⟨after', shards', heq', -, hafter⟩
    · rw [heq] at hfail
      cases hfail
    · rw [heq] at heq'
      cases heq'
      exact holds_set hpool hafter

omit [LinearOrder Symbol] in
theorem sum_shardLoad {messageRate : Symbol → Int} {instruments : List Symbol} {maxSymbols : Nat}
    {shards : List (List Symbol)}
    (h : ShardPartition instruments shardCount maxSymbols shards) :
    (shards.map (shardLoad messageRate)).sum = (instruments.map messageRate).sum := by
  rw [← (h.symbols.map messageRate).sum_eq, List.map_flatten, List.sum_flatten, List.map_map]
  rfl

theorem TrafficSharder.messageRate_shards {sharder after : TrafficSharder Symbol}
    {instruments : List Symbol} {shards : List (List Symbol)}
    (h : sharder.shards instruments = .ok (after, shards)) :
    after.messageRate = sharder.messageRate := by
  unfold TrafficSharder.shards at h
  dsimp only at h
  split_ifs at h with hzero hfirst
  · cases h
    rfl
  · obtain ⟨placement, -, heq⟩ := exists_of_bind_ok h
    cases heq
    rfl
  · obtain ⟨placement, -, heq⟩ := exists_of_bind_ok h
    cases heq
    rfl

/-- Every sharder of a run returned a partition of its instruments last. It finds a shard for
every symbol of new instruments, and those that stay keep theirs; it rebalances whatever some
sharder returned last, by moving one pair of symbols at most, and then `shards` returns the same
again. A rebalance fails where the loads cannot be compared, and nowhere else. -/
theorem sharders_partition (hpos : 0 < shardCount) (hle : shardCount ≤ symbolCount)
    (hrun : Run (SharderStep belowTrigger symbolCount shardCount) [] calls pool) :
    (∀ held ∈ pool, ∀ instruments shards, held.returned = some (instruments, shards) →
      ShardPartition instruments shardCount
        ((symbolCount + shardCount - 1) / shardCount + 1) shards) ∧
    (∀ held ∈ pool, ∀ instruments : List Symbol, instruments.Nodup →
      instruments.length = symbolCount →
      ∃ after shards, held.sharder.shards instruments = .ok (after, shards) ∧
        ShardPartition instruments shardCount
          ((symbolCount + shardCount - 1) / shardCount + 1) shards ∧
        ∀ before current, held.returned = some (before, current) →
          ∀ (index : Nat) shard symbol, current[index]? = some shard → symbol ∈ shard →
            symbol ∈ instruments → ∃ next, shards[index]? = some next ∧ symbol ∈ next) ∧
    ∀ held ∈ pool, ∀ given ∈ pool, ∀ instruments current,
      given.returned = some (instruments, current) →
      (∃ error,
        belowTrigger ((current.map (shardLoad held.sharder.messageRate)).max?.getD 0 * shardCount)
          (current.map (shardLoad held.sharder.messageRate)).sum = .error error ∧
        held.sharder.rebalance belowTrigger instruments current = .error error) ∨
      ∃ after shards, held.sharder.rebalance belowTrigger instruments current =
          .ok (after, shards) ∧
        ShardPartition instruments shardCount
          ((symbolCount + shardCount - 1) / shardCount + 1) shards ∧
        OnePairMoved current shards ∧
        ∀ instruments', instruments'.Perm instruments →
          ∃ again, after.shards instruments' = .ok (again, shards) := by
  have hholds : ∀ held ∈ pool, held.Holds symbolCount shardCount :=
    hrun.preserves (fun hpool hstep => hstep.holds hpos hle hpool) nofun
  refine ⟨fun held hm instruments shards heq => ?_, fun held hm instruments hnodup hlength => ?_,
    fun held hm given hgiven instruments current heq => ?_⟩
  · exact ((hholds held hm).returned instruments shards heq).2.2.1
  · have hheld := hholds held hm
    obtain ⟨after, shards, heq, hafter, hstays⟩ := TrafficSharder.shards_ok hpos hheld.count hnodup
      hlength hle hheld.capped.1 hheld.capped.2
    refine ⟨after, shards, heq, (hafter.returned instruments shards rfl).2.2.1, ?_⟩
    intro before current hbefore index shard symbol hshard hin hactive
    obtain ⟨-, -, hpartition, -, hassigns⟩ := hheld.returned before current hbefore
    apply hstays symbol index
    · exact (hassigns.mem_iff symbol index).mpr ⟨shard, hshard, hin⟩
    · exact hactive
    · rw [← hpartition.length]
      exact (List.getElem?_eq_some_iff.mp hshard).1
  · have hgiven' : HeldSharder.Holds symbolCount shardCount
        ⟨given.sharder, some (instruments, current)⟩ := heq ▸ hholds given hgiven
    apply (TrafficSharder.rebalance_returned (hholds held hm).count hle hgiven').imp_right
    rintro ⟨after, shards, hok, hmoved, hafter⟩
    exact ⟨after, shards, hok, (hafter.returned instruments shards rfl).2.2.1, hmoved,
      fun instruments' hperm => TrafficSharder.shards_returned hpos hle hafter hperm⟩

theorem sharders_partition_three : ∃ pool,
    Run (SharderStep belowRebalanceTrigger 3 2) []
      [.create [("BTCUSDT", 9300), ("ETHUSDT", 16900)],
        .shards 0 ["BTCUSDT", "ETHUSDT", "XRPUSDT"], .rebalance 0 0, .copy 0,
        .shards 1 ["ETHUSDT", "SOLUSDT", "XRPUSDT"]] pool ∧
    ∀ held ∈ pool, ∀ instruments shards, held.returned = some (instruments, shards) →
      ShardPartition instruments 2 3 shards := by
  let rates : List (String × Int) := [("BTCUSDT", 9300), ("ETHUSDT", 16900)]
  let sharder : TrafficSharder String := { count := 2, messageRates := rates, count_pos := by decide }
  have hcreate : SharderStep belowRebalanceTrigger 3 2 [] (.create rates) [{ sharder }] :=
    .create [] rates (by decide)
  have hbefore : ["BTCUSDT", "ETHUSDT", "XRPUSDT"].Nodup := by decide
  have hafter : ["ETHUSDT", "SOLUSDT", "XRPUSDT"].Nodup := by decide
  obtain ⟨placed, shards, hplaced, hpartition, -⟩ := (sharders_partition (by decide) (by decide)
    (.single hcreate)).2.1 _ List.mem_cons_self _ hbefore rfl
  have hshards : SharderStep belowRebalanceTrigger 3 2 [{ sharder }]
      (.shards 0 ["BTCUSDT", "ETHUSDT", "XRPUSDT"])
      [⟨placed, some (["BTCUSDT", "ETHUSDT", "XRPUSDT"], shards)⟩] :=
    .shards rfl hbefore rfl hplaced
  have htwo := Run.cons hcreate (.single hshards)
  -- the rates of three symbols are small, so that the rebalance compares them
  have hload : |(shards.map (shardLoad placed.messageRate)).sum| ≤ 2 ^ 1023 := by
    have hrates : placed.messageRate = sharder.messageRate :=
      TrafficSharder.messageRate_shards hplaced
    rw [hrates, sum_shardLoad hpartition]
    exact (by decide : _ ≤ (2 : Int) ^ 16).trans (pow_le_pow_right₀ (by decide) (by decide))
  obtain ⟨balanced, rebalanced, hbalanced, -⟩ := ((sharders_partition (by decide) (by decide)
    htwo).2.2 _ List.mem_cons_self _ List.mem_cons_self _ _ rfl).resolve_left (by
      rintro ⟨error, herror, -⟩
      obtain ⟨below, hbelow⟩ := belowRebalanceTrigger_ok hload
        ((shards.map (shardLoad placed.messageRate)).max?.getD 0 * (2 : Nat))
      rw [hbelow] at herror
      cases herror)
  let held : HeldSharder String := ⟨balanced, some (["BTCUSDT", "ETHUSDT", "XRPUSDT"], rebalanced)⟩
  have hrebalance : SharderStep belowRebalanceTrigger 3 2
      [⟨placed, some (["BTCUSDT", "ETHUSDT", "XRPUSDT"], shards)⟩] (.rebalance 0 0) [held] :=
    .rebalance rfl rfl rfl hbalanced
  have hcopy : SharderStep belowRebalanceTrigger 3 2 [held] (.copy 0)
      ([held] ++ [{ held with sharder := held.sharder.copy }]) := .copy rfl
  have hfour := Run.cons hcreate (.cons hshards (.cons hrebalance (.single hcopy)))
  obtain ⟨later, shards', hlater, -⟩ := (sharders_partition (by decide) (by decide)
    hfour).2.1 _ (List.mem_cons_of_mem _ List.mem_cons_self) _ hafter rfl
  have hdeparture : SharderStep belowRebalanceTrigger 3 2
      [held, { held with sharder := held.sharder.copy }]
      (.shards 1 ["ETHUSDT", "SOLUSDT", "XRPUSDT"]) _ := .shards rfl hafter rfl hlater
  have hrun := Run.cons hcreate (.cons hshards (.cons hrebalance (.cons hcopy (.single hdeparture))))
  exact ⟨_, hrun, (sharders_partition (by decide) (by decide) hrun).1⟩

end Runs

end MiryFormal
