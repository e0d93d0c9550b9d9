import MiryFormal.Collector.SwapBalance
import MiryFormal.Shared.KeyedDict
import Mathlib.Data.List.Sort
import Mathlib.Data.List.MinMax
import Mathlib.Data.Prod.Lex
import Mathlib.Algebra.Order.BigOperators.Group.List
import Mathlib.Algebra.Order.Ring.Nat
import MiryFormal.Shared.Fallible
import MiryFormal.Shared.SignificantDigits

/-!
# The traffic sharder

`TrafficSharder` spreads symbols over a fixed number of shards by their message rates. Symbols
keep their shard for as long as they stay; new ones go to the least loaded shard that has room.
-/

namespace MiryFormal

set_option autoImplicit false

variable {Symbol : Type} [LinearOrder Symbol]

structure TrafficSharder (Symbol : Type) where
  count : Nat
  messageRates : List (Symbol × Int)
  assignments : List (Symbol × Nat) := []
  count_pos : 1 ≤ count

/-- The variables of the placing loops of `shards`. -/
structure Placement (Symbol : Type) where
  assignments : List (Symbol × Nat)
  shards : List (List Symbol)
  loads : List Int

/-- `tuple(tuple(sorted(shard)) for shard in shards)` -/
def sortShards (shards : List (List Symbol)) : List (List Symbol) :=
  shards.map fun shard => shard.insertionSort (· ≤ ·)

/-- `{symbol: shard for shard, symbols in enumerate(shards) for symbol in symbols}` -/
def assignmentsOf (shards : List (List Symbol)) : List (Symbol × Nat) :=
  (shards.zipIdx.flatMap fun entry => entry.1.map fun symbol => (symbol, entry.2)).foldl
    (fun assignments entry => KeyedDict.set id entry.1 entry.2 assignments) []

/-- Shards are compared by load, and by number where the loads agree. -/
instance (priority := 2000) shardPreorder : Preorder (Int ×ₗ Nat) :=
  (Prod.Lex.instLinearOrder Int Nat).toPreorder

namespace Placement

/-- A symbol goes to a shard. -/
def put (messageRate : Symbol → Int) (placement : Placement Symbol) (symbol : Symbol)
    (shard : Nat) : Placement Symbol :=
  { placement with
    shards := placement.shards.modify shard (· ++ [symbol])
    loads := placement.loads.modify shard (· + messageRate symbol) }

/-- One pass of the loop over the unassigned symbols. -/
def place (messageRate : Symbol → Int) (shardCount maxSymbols : Nat)
    (placement : Placement Symbol) (symbol : Symbol) : Except String (Placement Symbol) :=
  let available := (List.range shardCount).filter fun index =>
    (placement.shards.getD index []).length < maxSymbols
  match available.argmin fun index => toLex (placement.loads.getD index 0, index) with
  | none => .error "min() iterable argument is empty"
  | some shard =>
      .ok ({ placement with
        assignments := KeyedDict.set id symbol shard placement.assignments }.put
          messageRate symbol shard)

end Placement

/-- The double nearest to a number, of two the even one. -/
def nearestDouble (x : Rat) : Rat :=
  if x < 0 then -roundDigits 2 53 (-1074) (-x) else roundDigits 2 53 (-1074) x

/-- `max(loads) * shard_count <= total_load * REBALANCE_TRIGGER_RATIO`, an integer against the
product of an integer and a float. -/
def belowRebalanceTrigger (peak total : Int) : Except String Bool :=
  let load := nearestDouble total
  if 2 ^ 1024 ≤ |load| then .error "int too large to convert to float"
  else
    let product := nearestDouble (load * (5 / 4))
    -- a product that overflows is an infinity
    if 2 ^ 1024 ≤ |product| then .ok (0 < product) else .ok (peak ≤ product)

namespace TrafficSharder

/-- `_message_rate` -/
def messageRate (sharder : TrafficSharder Symbol) (symbol : Symbol) : Int :=
  match KeyedDict.get id symbol sharder.messageRates with
  | some rate => rate
  | none =>
      if sharder.messageRates = [] then 1
      else
        let ordered := (sharder.messageRates.map Prod.snd).insertionSort (· ≤ ·)
        ordered.getD (ordered.length / 2) 0

/-- The placement of the symbols that stay, in the order of their names. -/
def kept (sharder : TrafficSharder Symbol) (active : List Symbol) (shardCount : Nat) :
    Placement Symbol :=
  let assignments := sharder.assignments.filter fun entry =>
    entry.1 ∈ active ∧ entry.2 < shardCount
  (assignments.insertionSort fun a b => toLex a ≤ toLex b).foldl
    (fun placement entry => placement.put sharder.messageRate entry.1 entry.2)
    { assignments, shards := List.replicate shardCount [], loads := List.replicate shardCount 0 }

/-- The symbols without a shard, the busiest first. -/
def unassigned (sharder : TrafficSharder Symbol) (active : List Symbol)
    (assignments : List (Symbol × Nat)) : List Symbol :=
  (active.filter fun symbol => (KeyedDict.get id symbol assignments).isNone).insertionSort
    fun a b => toLex (-sharder.messageRate a, a) ≤ toLex (-sharder.messageRate b, b)

def shards (sharder : TrafficSharder Symbol) (instruments : List Symbol) :
    Except String (TrafficSharder Symbol × List (List Symbol)) :=
  let shardCount := min sharder.count instruments.length
  if shardCount = 0 then .ok (sharder, [])
  else do
    let active := instruments.dedup
    let maxSymbols := (active.length + shardCount - 1) / shardCount + 1
    let start := sharder.kept active shardCount
    let placement ← (sharder.unassigned active start.assignments).foldlM
      (Placement.place sharder.messageRate shardCount maxSymbols) start
    -- only the first assignment is balanced further
    if sharder.assignments = [] then
      let improved :=
        (improveBalance sharder.messageRate placement.shards placement.loads none).1
      return ({ sharder with assignments := assignmentsOf improved }, sortShards improved)
    else
      return ({ sharder with assignments := placement.assignments }, sortShards placement.shards)

/-- `rebalance`, which makes at most one swap. `belowTrigger` compares the loads, as
`belowRebalanceTrigger` does. -/
def rebalance (belowTrigger : Int → Int → Except String Bool) (sharder : TrafficSharder Symbol)
    (instruments : List Symbol) (currentShards : List (List Symbol)) :
    Except String (TrafficSharder Symbol × List (List Symbol)) :=
  let shardCount := min sharder.count instruments.length
  if currentShards.length ≠ shardCount then
    .error "current shard count does not match configured shard count"
  else
    let active := instruments.dedup
    let flattened := currentShards.flatten
    if flattened.length ≠ active.length ∨ ¬ (flattened ⊆ active ∧ active ⊆ flattened) then
      .error "current shards must contain every active symbol exactly once"
    else do
      let loads := currentShards.map (shardLoad sharder.messageRate)
      let below ←
        if shardCount < 2 then pure true
        else belowTrigger (loads.max?.getD 0 * shardCount) loads.sum
      let shards :=
        if below then currentShards
        else (improveBalance sharder.messageRate currentShards loads (some 1)).1
      return ({ sharder with assignments := assignmentsOf shards }, sortShards shards)

/-- `copy` -/
def copy (sharder : TrafficSharder Symbol) : TrafficSharder Symbol where
  count := sharder.count
  messageRates := sharder.messageRates
  assignments := sharder.assignments
  count_pos := sharder.count_pos

end TrafficSharder

/-! ## The comparison of the loads -/

theorem abs_nearestDouble_le {x : Rat} (h : |x| ≤ 2 ^ 1023) : |nearestDouble x| ≤ 2 ^ 1023 := by
  have hpower : roundDigits 2 53 (-1074) (2 ^ 1023) = 2 ^ 1023 := by
    apply roundDigits_of_digits (by omega) (by omega : 1 < 2 ^ 53) (by omega : -1074 ≤ (1023 : Int))
    rw [Nat.cast_one, one_mul]
    exact (zpow_natCast (2 : Rat) 1023).symm
  have hbound : ∀ y : Rat, 0 ≤ y → y ≤ 2 ^ 1023 → |roundDigits 2 53 (-1074) y| ≤ 2 ^ 1023 := by
    intro y hy hle
    rw [abs_of_nonneg (roundDigits_nonneg hy)]
    exact (roundDigits_mono (by omega) (by omega) hy hle).trans hpower.le
  unfold nearestDouble
  split_ifs with hneg
  · rw [abs_neg]
    rw [abs_of_neg hneg] at h
    exact hbound (-x) (by linarith) h
  · rw [abs_of_nonneg (not_lt.mp hneg)] at h
    exact hbound x (not_lt.mp hneg) h

/-- Loads that a double holds are compared. -/
theorem belowRebalanceTrigger_ok {total : Int} (h : |total| ≤ 2 ^ 1023) (peak : Int) :
    ∃ below, belowRebalanceTrigger peak total = .ok below := by
  have hload : |nearestDouble total| ≤ 2 ^ 1023 := by
    apply abs_nearestDouble_le
    calc
      |(total : Rat)| = (|total| : Int) := Int.cast_abs.symm
      _ ≤ ((2 ^ 1023 : Int) : Rat) := Int.cast_le.mpr h
      _ = 2 ^ 1023 := by rw [Int.cast_pow, Int.cast_ofNat]
  unfold belowRebalanceTrigger
  dsimp only
  rw [if_neg (not_le.mpr (hload.trans_lt (pow_lt_pow_right₀ one_lt_two (by omega))))]
  split_ifs
  · exact ⟨_, rfl⟩
  · exact ⟨_, rfl⟩

/-! ## Placing -/

section Placing
variable {Symbol : Type}

/-- The symbols that were placed in a shard. -/
def members (pairs : List (Symbol × Nat)) (shard : Nat) : List Symbol :=
  (pairs.filter fun entry => entry.2 = shard).map Prod.fst

/-- The shards and loads once `pairs` have been placed. -/
structure Filled (messageRate : Symbol → Int) (shardCount : Nat) (pairs : List (Symbol × Nat))
    (placement : Placement Symbol) : Prop where
  shards : placement.shards = (List.range shardCount).map (members pairs)
  loads : placement.loads = placement.shards.map (shardLoad messageRate)
  bounded : ∀ entry ∈ pairs, entry.2 < shardCount

variable {messageRate : Symbol → Int} {shardCount : Nat} {pairs : List (Symbol × Nat)}
  {placement : Placement Symbol} {symbol : Symbol} {shard : Nat}

theorem mem_members_pairs : symbol ∈ members pairs shard ↔ (symbol, shard) ∈ pairs := by
  unfold members
  rw [List.mem_map]
  constructor
  · rintro ⟨entry, hm, rfl⟩
    obtain ⟨hm, heq⟩ := List.mem_filter.mp hm
    rw [← of_decide_eq_true heq]
    exact hm
  · intro hm
    exact ⟨(symbol, shard), List.mem_filter.mpr ⟨hm, decide_eq_true rfl⟩, rfl⟩

theorem members_snoc (other : Nat) :
    members (pairs ++ [(symbol, shard)]) other =
      if shard = other then members pairs other ++ [symbol] else members pairs other := by
  unfold members
  rw [List.filter_append, List.map_append]
  by_cases heq : shard = other
  · simp [heq]
  · simp [heq]

theorem Filled.getElem? (h : Filled messageRate shardCount pairs placement)
    (hlt : shard < shardCount) : placement.shards[shard]? = some (members pairs shard) := by
  rw [h.shards, List.getElem?_map, List.getElem?_range hlt]
  rfl

theorem Filled.put (h : Filled messageRate shardCount pairs placement) (symbol : Symbol)
    (hlt : shard < shardCount) :
    Filled messageRate shardCount (pairs ++ [(symbol, shard)])
      (placement.put messageRate symbol shard) := by
  refine ⟨?_, ?_, fun entry hm => ?_⟩
  · apply List.ext_getElem?
    intro other
    unfold Placement.put
    rw [List.getElem?_modify, h.shards, List.getElem?_map, List.getElem?_map]
    by_cases hother : other < shardCount
    · rw [List.getElem?_range hother, Option.map_some, Option.map_some, members_snoc]
      by_cases heq : shard = other <;> simp [heq]
    · rw [List.getElem?_eq_none (by simpa using hother)]
      rfl
  · unfold Placement.put
    dsimp only
    rw [map_modify (h.getElem? hlt), h.loads]
    apply List.ext_getElem?
    intro other
    rw [List.getElem?_modify, List.getElem?_set, List.getElem?_map, List.length_map, h.shards,
      List.length_map, List.length_range, List.getElem?_map]
    by_cases heq : shard = other
    · subst heq
      rw [List.getElem?_range hlt]
      simp [hlt, shardLoad]
    · simp [heq]
  · cases List.mem_append.mp hm with
    | inl hm => exact h.bounded entry hm
    | inr hm =>
      rw [List.mem_singleton.mp hm]
      exact hlt

theorem Filled.loop {entries : List (Symbol × Nat)}
    (h : Filled messageRate shardCount pairs placement)
    (hbounded : ∀ entry ∈ entries, entry.2 < shardCount) :
    Filled messageRate shardCount (pairs ++ entries)
      (entries.foldl (fun placement entry => placement.put messageRate entry.1 entry.2)
        placement) := by
  induction entries generalizing pairs placement with
  | nil =>
    rw [List.append_nil]
    exact h
  | cons entry entries ih =>
    have hnext := h.put entry.1 (hbounded entry List.mem_cons_self)
    have hrest := ih hnext fun other hm => hbounded other (List.mem_cons_of_mem entry hm)
    rw [List.append_assoc] at hrest
    exact hrest

theorem assignments_loop (messageRate : Symbol → Int) (entries : List (Symbol × Nat))
    (placement : Placement Symbol) :
    (entries.foldl (fun placement entry => placement.put messageRate entry.1 entry.2)
      placement).assignments = placement.assignments := by
  induction entries generalizing placement with
  | nil => rfl
  | cons entry entries ih => exact ih (placement.put messageRate entry.1 entry.2)

theorem filled_empty (messageRate : Symbol → Int) (shardCount : Nat)
    (assignments : List (Symbol × Nat)) :
    Filled messageRate shardCount []
      { assignments, shards := List.replicate shardCount [], loads := List.replicate shardCount 0 } := by
  refine ⟨?_, ?_, nofun⟩
  · apply List.ext_getElem
    · simp
    · simp [members]
  · simp [shardLoad]

theorem flatten_members (hbounded : ∀ entry ∈ pairs, entry.2 < shardCount) :
    ((List.range shardCount).map (members pairs)).flatten.Perm (pairs.map Prod.fst) := by
  induction shardCount generalizing pairs with
  | zero =>
    cases pairs with
    | nil => exact .refl _
    | cons entry pairs => exact absurd (hbounded entry List.mem_cons_self) (Nat.not_lt_zero _)
  | succ shardCount ih =>
    have hsplit := List.filter_append_perm (fun entry : Symbol × Nat => entry.2 = shardCount) pairs
    have hrest : ((List.range shardCount).map (members pairs)).flatten.Perm
        ((pairs.filter fun entry => !decide (entry.2 = shardCount)).map Prod.fst) := by
      have hmembers : (List.range shardCount).map (members pairs) = (List.range shardCount).map
          (members (pairs.filter fun entry => !decide (entry.2 = shardCount))) := by
        apply List.map_congr_left
        intro index hindex
        unfold members
        rw [List.filter_filter]
        congr 1
        apply List.filter_congr
        intro entry _
        have hlt := List.mem_range.mp hindex
        by_cases heq : entry.2 = index
        · simp [heq, Nat.ne_of_lt hlt]
        · simp [heq]
      rw [hmembers]
      apply ih
      intro entry hm
      obtain ⟨hm, hne⟩ := List.mem_filter.mp hm
      have hlt := hbounded entry hm
      have hne : entry.2 ≠ shardCount := by simpa using hne
      omega
    rw [List.range_succ, List.map_append, List.flatten_append, List.map_singleton,
      List.flatten_singleton]
    have hlast := hrest.append_right (members pairs shardCount)
    refine hlast.trans (List.perm_append_comm.trans ?_)
    have hmap := hsplit.map Prod.fst
    rw [List.map_append] at hmap
    exact hmap

/-- A shard has room for as long as fewer symbols are placed than there are places. -/
theorem Filled.exists_room {maxSymbols : Nat}
    (h : Filled messageRate shardCount pairs placement)
    (hroom : pairs.length < shardCount * maxSymbols) :
    ∃ index < shardCount, (members pairs index).length < maxSymbols := by
  by_contra hfull
  have hlengths : ∀ length ∈ ((List.range shardCount).map (members pairs)).map List.length,
      maxSymbols ≤ length := by
    intro length hm
    rw [List.map_map] at hm
    obtain ⟨index, hindex, rfl⟩ := List.mem_map.mp hm
    by_contra hlt
    exact hfull ⟨index, List.mem_range.mp hindex, Nat.lt_of_not_le hlt⟩
  have hsum := List.card_nsmul_le_sum _ maxSymbols hlengths
  have htotal := (flatten_members h.bounded).length_eq
  rw [List.length_flatten, List.length_map] at htotal
  rw [List.length_map, List.length_map, List.length_range, htotal] at hsum
  exact absurd hroom (Nat.not_lt.mpr hsum)

end Placing

section PlacingNew
variable {messageRate : Symbol → Int} {shardCount maxSymbols : Nat} {pairs : List (Symbol × Nat)}
  {placement : Placement Symbol} {symbol : Symbol}

/-- One unassigned symbol finds a shard. -/
theorem Filled.place (h : Filled messageRate shardCount pairs placement)
    (hassignments : placement.assignments.Perm pairs) (hnew : symbol ∉ pairs.map Prod.fst)
    (hroom : pairs.length < shardCount * maxSymbols) :
    ∃ after shard, placement.place messageRate shardCount maxSymbols symbol = .ok after ∧
      (members pairs shard).length < maxSymbols ∧
      Filled messageRate shardCount (pairs ++ [(symbol, shard)]) after ∧
      after.assignments.Perm (pairs ++ [(symbol, shard)]) := by
  obtain ⟨index, hindex, hspace⟩ := h.exists_room hroom
  have hlength : ∀ other < shardCount,
      placement.shards.getD other [] = members pairs other := by
    intro other hother
    rw [List.getD_eq_getElem?_getD, h.getElem? hother]
    rfl
  unfold Placement.place
  dsimp only
  cases hargmin : ((List.range shardCount).filter fun index =>
      (placement.shards.getD index []).length < maxSymbols).argmin fun index =>
        toLex (placement.loads.getD index 0, index) with
  | none =>
    rw [List.argmin_eq_none] at hargmin
    have hmem : index ∈ (List.range shardCount).filter fun index =>
        (placement.shards.getD index []).length < maxSymbols := by
      rw [List.mem_filter, hlength index hindex]
      exact ⟨List.mem_range.mpr hindex, decide_eq_true hspace⟩
    rw [hargmin] at hmem
    cases hmem
  | some shard =>
    obtain ⟨hshard, hfree⟩ := List.mem_filter.mp (List.argmin_mem hargmin)
    have hlt := List.mem_range.mp hshard
    rw [hlength shard hlt] at hfree
    have hnone : KeyedDict.get id (id symbol) placement.assignments = none := by
      apply KeyedDict.get_eq_none_of_notMem
      intro entry hm heq
      apply hnew
      rw [← show entry.1 = symbol from heq]
      exact List.mem_map_of_mem (hassignments.mem_iff.mp hm)
    refine ⟨_, shard, rfl, of_decide_eq_true hfree, ?_, ?_⟩
    · have hput : Filled messageRate shardCount pairs { placement with
          assignments := KeyedDict.set id symbol shard placement.assignments } :=
        ⟨h.shards, h.loads, h.bounded⟩
      exact hput.put symbol hlt
    · unfold Placement.put
      dsimp only
      rw [KeyedDict.set_of_get_eq_none hnone]
      exact hassignments.append_right _

/-- The loop over the unassigned symbols does not run out of shards with room. -/
theorem Filled.placeAll {todo : List Symbol} (h : Filled messageRate shardCount pairs placement)
    (hassignments : placement.assignments.Perm pairs)
    (hnodup : (pairs.map Prod.fst ++ todo).Nodup)
    (hroom : pairs.length + todo.length ≤ shardCount * maxSymbols)
    (hcap : ∀ shard, (members pairs shard).length ≤ maxSymbols) :
    ∃ after placed,
      todo.foldlM (Placement.place messageRate shardCount maxSymbols) placement = .ok after ∧
      placed.map Prod.fst = todo ∧ Filled messageRate shardCount (pairs ++ placed) after ∧
      after.assignments.Perm (pairs ++ placed) ∧
      ∀ shard, (members (pairs ++ placed) shard).length ≤ maxSymbols := by
  induction todo generalizing pairs placement with
  | nil =>
    refine ⟨placement, [], rfl, rfl, ?_⟩
    rw [List.append_nil]
    exact ⟨h, hassignments, hcap⟩
  | cons symbol todo ih =>
    rw [List.length_cons] at hroom
    have hnew : symbol ∉ pairs.map Prod.fst := by
      intro hm
      exact (List.nodup_append.mp hnodup).2.2 symbol hm symbol List.mem_cons_self rfl
    have hspace : pairs.length < shardCount * maxSymbols := by omega
    obtain ⟨middle, shard, hplace, hfree, hfilled, hperm⟩ := h.place hassignments hnew hspace
    have hcap' : ∀ other, (members (pairs ++ [(symbol, shard)]) other).length ≤ maxSymbols := by
      intro other
      rw [members_snoc]
      by_cases heq : shard = other
      · rw [if_pos heq, ← heq, List.length_append, List.length_singleton]
        omega
      · rw [if_neg heq]
        exact hcap other
    have hnodup' : ((pairs ++ [(symbol, shard)]).map Prod.fst ++ todo).Nodup := by
      rw [List.map_append, List.append_assoc]
      exact hnodup
    have hroom' : (pairs ++ [(symbol, shard)]).length + todo.length ≤ shardCount * maxSymbols := by
      rw [List.length_append, List.length_singleton]
      omega
    obtain ⟨after, placed, hrest, hkeys, hall⟩ := ih hfilled hperm hnodup' hroom' hcap'
    rw [List.append_assoc] at hall
    refine ⟨after, (symbol, shard) :: placed, ?_, ?_, hall⟩
    · rw [List.foldlM_cons]
      exact bind_eq hplace hrest
    · rw [List.map_cons, hkeys]

end PlacingNew

/-! ## What is returned -/

/-- The shards hold every symbol once, and none of them too many. -/
structure ShardPartition (instruments : List Symbol) (shardCount maxSymbols : Nat)
    (shards : List (List Symbol)) : Prop where
  length : shards.length = shardCount
  symbols : shards.flatten.Perm instruments
  capped : ∀ shard ∈ shards, shard.length ≤ maxSymbols

/-- The assignments are those of the shards. -/
structure Assigns (assignments : List (Symbol × Nat)) (shards : List (List Symbol)) : Prop where
  distinct : KeyedDict.Distinct id assignments
  mem_iff : ∀ symbol index, (symbol, index) ∈ assignments ↔
    ∃ shard, shards[index]? = some shard ∧ symbol ∈ shard

section Returned
variable {instruments : List Symbol} {shardCount maxSymbols : Nat} {shards : List (List Symbol)}
  {assignments : List (Symbol × Nat)}

theorem flatten_sortShards (shards : List (List Symbol)) :
    (sortShards shards).flatten.Perm shards.flatten := by
  unfold sortShards
  induction shards with
  | nil => exact .refl _
  | cons shard shards ih =>
    rw [List.map_cons, List.flatten_cons, List.flatten_cons]
    exact (List.perm_insertionSort _ shard).append ih

theorem getElem?_sortShards (index : Nat) :
    (sortShards shards)[index]? = shards[index]?.map fun shard => shard.insertionSort (· ≤ ·) :=
  List.getElem?_map

theorem ShardPartition.sort (h : ShardPartition instruments shardCount maxSymbols shards) :
    ShardPartition instruments shardCount maxSymbols (sortShards shards) := by
  refine ⟨?_, (flatten_sortShards shards).trans h.symbols, fun shard hm => ?_⟩
  · unfold sortShards
    rw [List.length_map, h.length]
  · obtain ⟨unsorted, hunsorted, rfl⟩ := List.mem_map.mp hm
    rw [List.length_insertionSort]
    exact h.capped unsorted hunsorted

theorem Assigns.sort (h : Assigns assignments shards) : Assigns assignments (sortShards shards) := by
  refine ⟨h.distinct, fun symbol index => (h.mem_iff symbol index).trans ?_⟩
  rw [getElem?_sortShards]
  cases hshard : shards[index]? with
  | none => simp
  | some shard => simp

/-- `enumerate` of shards without a common symbol. -/
theorem assigns_assignmentsOf (hnodup : shards.flatten.Nodup) :
    Assigns (assignmentsOf shards) shards := by
  have hentries : ∀ entries : List (Symbol × Nat), (entries.map Prod.fst).Nodup →
      entries.foldl (fun assignments entry => KeyedDict.set id entry.1 entry.2 assignments) [] =
        entries := by
    intro entries
    induction entries using List.reverseRecOn with
    | nil => exact fun _ => rfl
    | append_singleton entries entry ih =>
      intro hkeys
      rw [List.map_append] at hkeys
      obtain ⟨hbefore, -, hnew⟩ := List.nodup_append.mp hkeys
      rw [List.foldl_append, ih hbefore]
      apply KeyedDict.set_of_get_eq_none
      apply KeyedDict.get_eq_none_of_notMem
      intro other hm heq
      exact hnew other.1 (List.mem_map_of_mem hm) entry.1 List.mem_cons_self heq
  have hkeys : (shards.zipIdx.flatMap fun entry =>
      entry.1.map fun symbol => (symbol, entry.2)).map Prod.fst = shards.flatten := by
    rw [List.map_flatMap]
    have hfst : ∀ entry : List Symbol × Nat,
        (entry.1.map fun symbol => (symbol, entry.2)).map Prod.fst = entry.1 := by
      intro entry
      rw [List.map_map]
      exact List.map_id entry.1
    simp only [hfst]
    rw [List.flatMap_def, List.zipIdx_map_fst]
  unfold assignmentsOf
  rw [hentries _ (hkeys ▸ hnodup)]
  constructor
  · unfold KeyedDict.Distinct
    exact hkeys ▸ hnodup
  · intro symbol index
    simp only [List.mem_flatMap, List.mem_map, Prod.mk.injEq]
    constructor
    · rintro ⟨entry, hm, found, hfound, rfl, rfl⟩
      exact ⟨entry.1, List.mem_zipIdx_iff_getElem?.mp hm, hfound⟩
    · rintro ⟨shard, hshard, hm⟩
      exact ⟨(shard, index), List.mem_zipIdx_iff_getElem?.mpr hshard, symbol, hm, rfl, rfl⟩

omit [LinearOrder Symbol] in
theorem Assigns.members_length {pairs : List (Symbol × Nat)} (h : Assigns assignments shards)
    (hkeys : (pairs.map Prod.fst).Nodup) (hsub : pairs ⊆ assignments)
    (hcap : ∀ shard ∈ shards, shard.length ≤ maxSymbols) (index : Nat) :
    (members pairs index).length ≤ maxSymbols := by
  have hnodup : (members pairs index).Nodup := hkeys.sublist (List.filter_sublist.map _)
  cases hshard : shards[index]? with
  | none =>
    have hempty : members pairs index = [] := by
      apply List.eq_nil_iff_forall_not_mem.mpr
      intro symbol hm
      obtain ⟨shard, hsome, -⟩ := (h.mem_iff symbol index).mp (hsub (mem_members_pairs.mp hm))
      rw [hshard] at hsome
      cases hsome
    rw [hempty]
    exact Nat.zero_le _
  | some shard =>
    have hsubset : members pairs index ⊆ shard := by
      intro symbol hm
      obtain ⟨other, hsome, hin⟩ := (h.mem_iff symbol index).mp (hsub (mem_members_pairs.mp hm))
      rw [hshard] at hsome
      cases hsome
      exact hin
    exact (List.subperm_of_subset hnodup hsubset).length_le.trans
      (hcap shard (List.mem_of_getElem? hshard))

end Returned

/-! ## A call of `shards` -/

namespace TrafficSharder
variable {sharder : TrafficSharder Symbol} {instruments : List Symbol}

/-- The cap on the symbols of one shard. -/
def maxSymbols (symbolCount shardCount : Nat) : Nat :=
  (symbolCount + shardCount - 1) / shardCount + 1

theorem lt_capacity {symbolCount shardCount : Nat} (hpos : 0 < shardCount) :
    symbolCount ≤ shardCount * maxSymbols symbolCount shardCount := by
  unfold maxSymbols
  have hdiv := Nat.div_add_mod (symbolCount + shardCount - 1) shardCount
  have hmod := Nat.mod_lt (symbolCount + shardCount - 1) hpos
  rw [Nat.mul_add, Nat.mul_one]
  omega

/-- The assignments of the symbols that stay. -/
def stays (sharder : TrafficSharder Symbol) (active : List Symbol) (shardCount : Nat) :
    List (Symbol × Nat) :=
  sharder.assignments.filter fun entry => entry.1 ∈ active ∧ entry.2 < shardCount

theorem mem_stays {active : List Symbol} {shardCount : Nat} {entry : Symbol × Nat} :
    entry ∈ sharder.stays active shardCount ↔
      entry ∈ sharder.assignments ∧ entry.1 ∈ active ∧ entry.2 < shardCount := by
  unfold stays
  rw [List.mem_filter, decide_eq_true_eq]

theorem filled_kept (sharder : TrafficSharder Symbol) (active : List Symbol) (shardCount : Nat) :
    (sharder.kept active shardCount).assignments = sharder.stays active shardCount ∧
      ∃ pairs, Filled sharder.messageRate shardCount pairs (sharder.kept active shardCount) ∧
        (sharder.stays active shardCount).Perm pairs := by
  have hperm := List.perm_insertionSort (fun a b => toLex a ≤ toLex b)
    (sharder.stays active shardCount)
  constructor
  · exact assignments_loop sharder.messageRate _ _
  · refine ⟨_, ?_, hperm.symm⟩
    apply (filled_empty sharder.messageRate shardCount (sharder.stays active shardCount)).loop
    intro entry hm
    exact (mem_stays.mp (hperm.mem_iff.mp hm)).2.2

theorem unassigned_perm {active : List Symbol} {assignments : List (Symbol × Nat)}
    (hactive : active.Nodup) (hkeys : (assignments.map Prod.fst).Nodup)
    (hsub : assignments.map Prod.fst ⊆ active) :
    (assignments.map Prod.fst ++ sharder.unassigned active assignments).Perm active := by
  have hperm : (sharder.unassigned active assignments).Perm
      (active.filter fun symbol => (KeyedDict.get id symbol assignments).isNone) :=
    List.perm_insertionSort _ _
  have hmem : ∀ symbol, symbol ∈ sharder.unassigned active assignments ↔
      symbol ∈ active ∧ symbol ∉ assignments.map Prod.fst := by
    intro symbol
    rw [hperm.mem_iff, List.mem_filter, Option.isNone_iff_eq_none]
    apply and_congr_right
    intro _
    constructor
    · intro hnone hm
      obtain ⟨entry, hentry, rfl⟩ := List.mem_map.mp hm
      have hdistinct : KeyedDict.Distinct id assignments := hkeys
      have hget : KeyedDict.get id entry.1 assignments = some entry.2 :=
        KeyedDict.get_of_mem hdistinct hentry
      rw [hnone] at hget
      cases hget
    · intro hnew
      apply KeyedDict.get_eq_none_of_notMem
      intro entry hm heq
      exact hnew (List.mem_map.mpr ⟨entry, hm, heq⟩)
  apply (List.perm_ext_iff_of_nodup _ hactive).mpr
  · intro symbol
    rw [List.mem_append, hmem]
    constructor
    · intro hm
      cases hm with
      | inl hm => exact hsub hm
      | inr hm => exact hm.1
    · intro hm
      by_cases hin : symbol ∈ assignments.map Prod.fst
      · exact .inl hin
      · exact .inr ⟨hm, hin⟩
  · apply List.nodup_append.mpr
    refine ⟨hkeys, (hperm.nodup_iff).mpr (hactive.filter _), fun a ha b hb heq => ?_⟩
    rw [heq] at ha
    exact ((hmem b).mp hb).2 ha

section Call
variable {symbolCount shardCount : Nat}

/-- The placing loops of `shards` end with every symbol in a shard that it may be in. -/
theorem placed_of_capped (hpos : 0 < shardCount) (hnodup : instruments.Nodup)
    (hlength : instruments.length = symbolCount)
    (hkeys : (sharder.assignments.map Prod.fst).Nodup)
    (hcap : ∀ index, (members sharder.assignments index).length ≤
      maxSymbols symbolCount shardCount) :
    ∃ placement pairs,
      (sharder.unassigned instruments (sharder.kept instruments shardCount).assignments).foldlM
        (Placement.place sharder.messageRate shardCount (maxSymbols symbolCount shardCount))
        (sharder.kept instruments shardCount) = .ok placement ∧
      Filled sharder.messageRate shardCount pairs placement ∧ placement.assignments.Perm pairs ∧
      (pairs.map Prod.fst).Perm instruments ∧
      (∀ index, (members pairs index).length ≤ maxSymbols symbolCount shardCount) ∧
      sharder.stays instruments shardCount ⊆ pairs := by
  obtain ⟨hkept, start, hfilled, hstart⟩ := filled_kept sharder instruments shardCount
  have hstays : (sharder.stays instruments shardCount).Sublist sharder.assignments :=
    List.filter_sublist
  have hstaykeys := hkeys.sublist (hstays.map Prod.fst)
  have hactive : (sharder.stays instruments shardCount).map Prod.fst ⊆ instruments := by
    intro symbol hm
    obtain ⟨entry, hentry, rfl⟩ := List.mem_map.mp hm
    exact (mem_stays.mp hentry).2.1
  have hall : (_ ++ sharder.unassigned instruments _).Perm instruments :=
    unassigned_perm hnodup hstaykeys hactive
  rw [hkept]
  generalize htodo : sharder.unassigned instruments (sharder.stays instruments shardCount) = todo
    at hall ⊢
  have hstartall : (start.map Prod.fst ++ todo).Perm instruments :=
    ((hstart.map Prod.fst).symm.append_right todo).trans hall
  have hroom : start.length + todo.length ≤ shardCount * maxSymbols symbolCount shardCount := by
    have hcount := hstartall.length_eq
    rw [List.length_append, List.length_map] at hcount
    exact (hcount.trans hlength).trans_le (lt_capacity hpos)
  have hstartcap : ∀ index, (members start index).length ≤ maxSymbols symbolCount shardCount := by
    intro index
    have hmembers : (members start index).Perm
        (members (sharder.stays instruments shardCount) index) :=
      ((hstart.symm.filter _).map Prod.fst)
    rw [hmembers.length_eq]
    exact ((hstays.filter _).map Prod.fst).length_le.trans (hcap index)
  obtain ⟨placement, placed, hloop, hkeysplaced, hend, hassigned, hcapped⟩ :=
    hfilled.placeAll (hkept ▸ hstart) (hstartall.nodup_iff.mpr hnodup) hroom hstartcap
  refine ⟨placement, start ++ placed, hloop, hend, hassigned, ?_, hcapped, ?_⟩
  · rw [List.map_append, hkeysplaced]
    exact hstartall
  · intro entry hm
    exact List.mem_append_left placed (hstart.mem_iff.mp hm)

omit [LinearOrder Symbol] in
theorem shardPartition_of_filled {messageRate : Symbol → Int} {pairs : List (Symbol × Nat)}
    {placement : Placement Symbol} (hfilled : Filled messageRate shardCount pairs placement)
    (hkeys : (pairs.map Prod.fst).Perm instruments)
    (hcap : ∀ index, (members pairs index).length ≤ maxSymbols symbolCount shardCount) :
    ShardPartition instruments shardCount (maxSymbols symbolCount shardCount) placement.shards := by
  constructor
  · rw [hfilled.shards, List.length_map, List.length_range]
  · rw [hfilled.shards]
    exact (flatten_members hfilled.bounded).trans hkeys
  · intro shard hm
    rw [hfilled.shards] at hm
    obtain ⟨index, -, rfl⟩ := List.mem_map.mp hm
    exact hcap index

omit [LinearOrder Symbol] in
theorem assigns_of_filled {messageRate : Symbol → Int} {pairs : List (Symbol × Nat)}
    {placement : Placement Symbol} (hfilled : Filled messageRate shardCount pairs placement)
    (hassigned : placement.assignments.Perm pairs) (hkeys : (pairs.map Prod.fst).Nodup) :
    Assigns placement.assignments placement.shards := by
  constructor
  · exact (hassigned.map Prod.fst).nodup_iff.mpr hkeys
  · intro symbol index
    rw [hassigned.mem_iff]
    constructor
    · intro hm
      exact ⟨members pairs index, hfilled.getElem? (hfilled.bounded _ hm), mem_members_pairs.mpr hm⟩
    · rintro ⟨shard, hshard, hm⟩
      by_cases hlt : index < shardCount
      · rw [hfilled.getElem? hlt] at hshard
        cases hshard
        exact mem_members_pairs.mp hm
      · rw [hfilled.shards, List.getElem?_eq_none (by simpa using hlt)] at hshard
        cases hshard

omit [LinearOrder Symbol] in
/-- What the improvement keeps of a partition. -/
theorem partition_rearranged {messageRate : Symbol → Int} {shards : List (List Symbol)}
    {state : List (List Symbol) × List Int}
    (h : ShardPartition instruments shardCount (maxSymbols symbolCount shardCount) shards)
    (hstate : Rearranged messageRate shards state) :
    ShardPartition instruments shardCount (maxSymbols symbolCount shardCount) state.1 := by
  have hlength := congrArg List.length hstate.lengths
  rw [List.length_map, List.length_map] at hlength
  refine ⟨hlength.trans h.length, hstate.symbols.trans h.symbols, fun shard hm => ?_⟩
  have hsize : shard.length ∈ shards.map List.length := by
    rw [← hstate.lengths]
    exact List.mem_map_of_mem hm
  obtain ⟨other, hother, heq⟩ := List.mem_map.mp hsize
  rw [← heq]
  exact h.capped other hother

end Call

end TrafficSharder

end MiryFormal
