import Mathlib.Data.List.GetD
import Mathlib.Data.List.Induction
import Mathlib.Algebra.BigOperators.Group.List.Basic
import Mathlib.Algebra.Order.Ring.Int
import MiryFormal.Shared.Runs

/-!
# Balancing shards by swaps

`_improve_balance`: among all swaps of two symbols between two shards the one that brings the
loads closest together is made, as long as some swap does. The spread of the loads falls with
every swap, so the loop ends, and then no swap is left that would narrow it.
-/

namespace MiryFormal

set_option autoImplicit false

universe u

variable {Symbol : Type u}

/-- `max(loads) - min(loads)`; the callers have at least one shard. -/
def spread (loads : List Int) : Int := loads.max?.getD 0 - loads.min?.getD 0

/-- The loop variable `best`. -/
structure Swap (Symbol : Type u) where
  left : Nat
  right : Nat
  leftSymbol : Symbol
  rightSymbol : Symbol
  nextLeft : Int
  nextRight : Int

namespace Swap

/-- `next_loads` -/
def nextLoads (swap : Swap Symbol) (loads : List Int) : List Int :=
  (loads.set swap.left swap.nextLeft).set swap.right swap.nextRight

/-- The shards once the two symbols have changed places. -/
def exchange [DecidableEq Symbol] (swap : Swap Symbol) (shards : List (List Symbol)) :
    List (List Symbol) :=
  (shards.modify swap.left fun shard => shard.erase swap.leftSymbol ++ [swap.rightSymbol]).modify
    swap.right fun shard => shard.erase swap.rightSymbol ++ [swap.leftSymbol]

end Swap

section Search
variable (messageRate : Symbol → Int) (shards : List (List Symbol)) (loads : List Int)

/-- The swap of two symbols, with the loads that it leads to. -/
def swapOf (left right : Nat) (leftSymbol rightSymbol : Symbol) : Swap Symbol where
  left := left
  right := right
  leftSymbol := leftSymbol
  rightSymbol := rightSymbol
  nextLeft := loads.getD left 0 - messageRate leftSymbol + messageRate rightSymbol
  nextRight := loads.getD right 0 - messageRate rightSymbol + messageRate leftSymbol

/-- The swaps in the order of the four nested loops. -/
def swaps : List (Swap Symbol) :=
  (List.range shards.length).flatMap fun left =>
    (List.range' (left + 1) (shards.length - (left + 1))).flatMap fun right =>
      (shards.getD left []).flatMap fun leftSymbol =>
        (shards.getD right []).map fun rightSymbol =>
          swapOf messageRate loads left right leftSymbol rightSymbol

/-- The body of the loops, with `best` and `best_spread`. -/
def consider (best : Option (Swap Symbol) × Int) (swap : Swap Symbol) :
    Option (Swap Symbol) × Int :=
  if spread (swap.nextLoads loads) < best.2 then (some swap, spread (swap.nextLoads loads))
  else best

def bestSwap : Option (Swap Symbol) :=
  ((swaps messageRate shards loads).foldl (consider loads) (none, spread loads)).1

end Search

/-! ## The spread -/

theorem max?_getD_le {loads : List Int} {bound : Int} (hne : loads ≠ []) :
    loads.max?.getD 0 ≤ bound ↔ ∀ load ∈ loads, load ≤ bound := by
  rw [List.max?_eq_some_max hne, Option.getD_some]
  exact List.max_le_iff hne

theorem le_min?_getD {loads : List Int} {bound : Int} (hne : loads ≠ []) :
    bound ≤ loads.min?.getD 0 ↔ ∀ load ∈ loads, bound ≤ load := by
  rw [List.min?_eq_some_min hne, Option.getD_some]
  exact List.le_min_iff hne

theorem spread_nonneg (loads : List Int) : 0 ≤ spread loads := by
  unfold spread
  cases loads with
  | nil => exact le_rfl
  | cons load rest =>
    have hne : load :: rest ≠ [] := List.cons_ne_nil load rest
    have hmax := (max?_getD_le hne).mp le_rfl load List.mem_cons_self
    have hmin := (le_min?_getD hne).mp le_rfl load List.mem_cons_self
    omega

/-! ## The search -/

section Search
variable {messageRate : Symbol → Int} {shards : List (List Symbol)} {loads : List Int}

theorem mem_swaps {swap : Swap Symbol} :
    swap ∈ swaps messageRate shards loads ↔ ∃ left right leftShard rightShard leftSymbol rightSymbol,
      left < right ∧ shards[left]? = some leftShard ∧ shards[right]? = some rightShard ∧
      leftSymbol ∈ leftShard ∧ rightSymbol ∈ rightShard ∧
      swap = swapOf messageRate loads left right leftSymbol rightSymbol := by
  unfold swaps
  simp only [List.mem_flatMap, List.mem_map, List.mem_range, List.mem_range'_1]
  constructor
  · rintro ⟨left, hleft, right, hright, leftSymbol, hls, rightSymbol, hrs, rfl⟩
    have hlt : right < shards.length := by omega
    rw [List.getD_eq_getElem _ _ hleft] at hls
    rw [List.getD_eq_getElem _ _ hlt] at hrs
    exact ⟨left, right, _, _, leftSymbol, rightSymbol, by omega, List.getElem?_eq_getElem hleft,
      List.getElem?_eq_getElem hlt, hls, hrs, rfl⟩
  · rintro ⟨left, right, leftShard, rightShard, leftSymbol, rightSymbol, hlt, hleft, hright, hls,
      hrs, rfl⟩
    have hin : left < shards.length := (List.getElem?_eq_some_iff.mp hleft).1
    have hin' : right < shards.length := (List.getElem?_eq_some_iff.mp hright).1
    refine ⟨left, hin, right, by omega, leftSymbol, ?_, rightSymbol, ?_, rfl⟩
    · rwa [List.getD_eq_getElem?_getD, hleft]
    · rwa [List.getD_eq_getElem?_getD, hright]

/-- What the loops have found among the swaps that they have been through. -/
structure Found (loads : List Int) (seen : List (Swap Symbol))
    (best : Option (Swap Symbol) × Int) : Prop where
  least : ∀ swap ∈ seen, best.2 ≤ spread (swap.nextLoads loads)
  none_eq : best.1 = none → best.2 = spread loads
  some_mem : ∀ swap, best.1 = some swap → swap ∈ seen ∧
    best.2 = spread (swap.nextLoads loads) ∧ best.2 < spread loads

theorem Found.consider {seen : List (Swap Symbol)} {best : Option (Swap Symbol) × Int}
    (h : Found loads seen best) (swap : Swap Symbol) :
    Found loads (seen ++ [swap]) (consider loads best swap) := by
  have hbound : best.2 ≤ spread loads := by
    cases hbest : best.1 with
    | none => exact (h.none_eq hbest).le
    | some found => exact (h.some_mem found hbest).2.2.le
  unfold MiryFormal.consider
  by_cases hless : spread (swap.nextLoads loads) < best.2
  · rw [if_pos hless]
    refine ⟨fun other hm => ?_, nofun, fun other hsome => ?_⟩
    · cases List.mem_append.mp hm with
      | inl hm => exact hless.le.trans (h.least other hm)
      | inr hm => rw [List.mem_singleton.mp hm]
    · cases hsome
      exact ⟨List.mem_append_right _ (List.mem_singleton_self _), rfl, hless.trans_le hbound⟩
  · rw [if_neg hless]
    refine ⟨fun other hm => ?_, h.none_eq, fun other hsome => ?_⟩
    · cases List.mem_append.mp hm with
      | inl hm => exact h.least other hm
      | inr hm =>
        rw [List.mem_singleton.mp hm]
        exact Int.not_lt.mp hless
    · obtain ⟨hm, hrest⟩ := h.some_mem other hsome
      exact ⟨List.mem_append_left _ hm, hrest⟩

theorem found_swaps (all : List (Swap Symbol)) :
    Found loads all (all.foldl (consider loads) (none, spread loads)) := by
  induction all using List.reverseRecOn with
  | nil => exact ⟨nofun, fun _ => rfl, nofun⟩
  | append_singleton all swap ih =>
    rw [List.foldl_append]
    exact ih.consider swap

theorem bestSwap_some {swap : Swap Symbol} (h : bestSwap messageRate shards loads = some swap) :
    swap ∈ swaps messageRate shards loads ∧ spread (swap.nextLoads loads) < spread loads := by
  obtain ⟨hm, heq, hlt⟩ := (found_swaps (swaps messageRate shards loads)).some_mem swap h
  exact ⟨hm, heq ▸ hlt⟩

theorem bestSwap_none (h : bestSwap messageRate shards loads = none) :
    ∀ swap ∈ swaps messageRate shards loads, spread loads ≤ spread (swap.nextLoads loads) := by
  intro swap hm
  have hfound : Found loads _ _ := found_swaps (swaps messageRate shards loads)
  have hle := hfound.least swap hm
  rwa [hfound.none_eq h] at hle

theorem spread_lt_of_bestSwap {swap : Swap Symbol}
    (h : bestSwap messageRate shards loads = some swap) :
    (spread (swap.nextLoads loads)).toNat < (spread loads).toNat := by
  have hlt := (bestSwap_some h).2
  have hnonneg := spread_nonneg (swap.nextLoads loads)
  omega

end Search

/-! ## The loop -/

variable [DecidableEq Symbol]

/-- `_improve_balance`; without `max_swaps` it goes on for as long as there is a swap. -/
def improveBalance (messageRate : Symbol → Int) (shards : List (List Symbol)) (loads : List Int)
    (maxSwaps : Option Nat) : List (List Symbol) × List Int :=
  if maxSwaps = some 0 then (shards, loads)
  else
    match hbest : bestSwap messageRate shards loads with
    | none => (shards, loads)
    | some swap =>
        improveBalance messageRate (swap.exchange shards) (swap.nextLoads loads)
          (maxSwaps.map (· - 1))
termination_by (spread loads).toNat
decreasing_by exact spread_lt_of_bestSwap hbest

/-- `sum(message_rate(symbol) for symbol in shard)` -/
def shardLoad (messageRate : Symbol → Int) (shard : List Symbol) : Int :=
  (shard.map messageRate).sum

section Exchange
variable {messageRate : Symbol → Int} {shards : List (List Symbol)} {loads : List Int}

/-- A symbol in place of another one. -/
theorem perm_replace {shard : List Symbol} {old : Symbol} (hold : old ∈ shard) (new : Symbol) :
    (old :: (shard.erase old ++ [new])).Perm (new :: shard) := by
  have hnew : (shard.erase old ++ [new]).Perm (new :: shard.erase old) := List.perm_append_comm
  exact (hnew.cons old).trans ((List.Perm.swap new old _).trans
    ((List.perm_cons_erase hold).symm.cons new))

theorem shardLoad_replace {shard : List Symbol} {old : Symbol} (hold : old ∈ shard)
    (new : Symbol) :
    shardLoad messageRate (shard.erase old ++ [new]) =
      shardLoad messageRate shard - messageRate old + messageRate new := by
  have hsum := ((perm_replace hold new).map messageRate).sum_eq
  rw [List.map_cons, List.map_cons, List.sum_cons, List.sum_cons] at hsum
  unfold shardLoad
  omega

theorem length_replace {shard : List Symbol} {old : Symbol} (hold : old ∈ shard) (new : Symbol) :
    (shard.erase old ++ [new]).length = shard.length := by
  have hlength := (perm_replace hold new).length_eq
  rw [List.length_cons, List.length_cons] at hlength
  omega

/-- One symbol of one shard replaced. -/
theorem perm_modify {index : Nat} {shard : List Symbol} {old : Symbol}
    (hshard : shards[index]? = some shard) (hold : old ∈ shard) (new : Symbol) :
    (old :: (shards.modify index fun shard => shard.erase old ++ [new]).flatten).Perm
      (new :: shards.flatten) := by
  obtain ⟨hlt, -⟩ := List.getElem?_eq_some_iff.mp hshard
  obtain ⟨before, found, after, hsplit, hlength, hmodify⟩ :=
    List.exists_of_modify (fun shard => shard.erase old ++ [new]) hlt
  have heq : found = shard := by
    rw [hsplit, ← hlength, List.getElem?_append_right le_rfl, Nat.sub_self] at hshard
    exact Option.some.inj hshard
  rw [hmodify, hsplit, heq, List.flatten_append, List.flatten_append, List.flatten_cons,
    List.flatten_cons]
  have hmid := ((perm_replace hold new).append_right after.flatten).append_left before.flatten
  exact List.perm_middle.symm.trans (hmid.trans List.perm_middle)

theorem map_modify {β : Type u} {γ : Type*} {l : List β} {index : Nat} {b : β}
    (h : l[index]? = some b) (f : β → β) (g : β → γ) :
    (l.modify index f).map g = (l.map g).set index (g (f b)) := by
  apply List.ext_getElem?
  intro other
  rw [List.getElem?_map, List.getElem?_modify, List.getElem?_set, List.getElem?_map,
    List.length_map]
  obtain ⟨hlt, rfl⟩ := List.getElem?_eq_some_iff.mp h
  by_cases heq : index = other
  · subst heq
    simp [hlt]
  · simp [heq]

theorem set_of_getElem? {γ : Type*} {l : List γ} {index : Nat} {c : γ} (h : l[index]? = some c) :
    l.set index c = l := by
  obtain ⟨hlt, rfl⟩ := List.getElem?_eq_some_iff.mp h
  exact List.set_getElem_self hlt

variable {left right : Nat} {leftShard rightShard : List Symbol} {leftSymbol rightSymbol : Symbol}

/-- A value of each shard, after two symbols have changed places. -/
theorem map_exchange {γ : Type*} (g : List Symbol → γ) (hne : left ≠ right)
    (hleft : shards[left]? = some leftShard) (hright : shards[right]? = some rightShard) :
    ((swapOf messageRate loads left right leftSymbol rightSymbol).exchange shards).map g =
      ((shards.map g).set left (g (leftShard.erase leftSymbol ++ [rightSymbol]))).set right
        (g (rightShard.erase rightSymbol ++ [leftSymbol])) := by
  have hright' : (shards.modify left fun shard => shard.erase leftSymbol ++ [rightSymbol])[right]? =
      some rightShard := by
    rw [List.getElem?_modify_ne _ _ hne]
    exact hright
  unfold Swap.exchange swapOf
  rw [map_modify hright', map_modify hleft]

theorem perm_exchange (hne : left ≠ right) (hleft : shards[left]? = some leftShard)
    (hright : shards[right]? = some rightShard) (hls : leftSymbol ∈ leftShard)
    (hrs : rightSymbol ∈ rightShard) :
    ((swapOf messageRate loads left right leftSymbol rightSymbol).exchange shards).flatten.Perm
      shards.flatten := by
  have hright' : (shards.modify left fun shard => shard.erase leftSymbol ++ [rightSymbol])[right]? =
      some rightShard := by
    rw [List.getElem?_modify_ne _ _ hne]
    exact hright
  have hfirst := perm_modify hleft hls rightSymbol
  have hsecond := perm_modify hright' hrs leftSymbol
  exact (hsecond.trans hfirst).cons_inv

theorem lengths_exchange (hne : left ≠ right) (hleft : shards[left]? = some leftShard)
    (hright : shards[right]? = some rightShard) (hls : leftSymbol ∈ leftShard)
    (hrs : rightSymbol ∈ rightShard) :
    ((swapOf messageRate loads left right leftSymbol rightSymbol).exchange shards).map List.length =
      shards.map List.length := by
  have hl : (shards.map List.length)[left]? = some leftShard.length := by
    rw [List.getElem?_map, hleft]
    rfl
  have hr : (shards.map List.length)[right]? = some rightShard.length := by
    rw [List.getElem?_map, hright]
    rfl
  rw [map_exchange List.length hne hleft hright, length_replace hls, length_replace hrs,
    set_of_getElem? hl, set_of_getElem? hr]

/-- The loads that the search computes are those of the exchanged shards. -/
theorem loads_exchange (hne : left ≠ right) (hleft : shards[left]? = some leftShard)
    (hright : shards[right]? = some rightShard) (hls : leftSymbol ∈ leftShard)
    (hrs : rightSymbol ∈ rightShard) (hloads : loads = shards.map (shardLoad messageRate)) :
    ((swapOf messageRate loads left right leftSymbol rightSymbol).exchange shards).map
        (shardLoad messageRate) =
      (swapOf messageRate loads left right leftSymbol rightSymbol).nextLoads loads := by
  have hl : loads.getD left 0 = shardLoad messageRate leftShard := by
    rw [hloads, List.getD_eq_getElem?_getD, List.getElem?_map, hleft]
    rfl
  have hr : loads.getD right 0 = shardLoad messageRate rightShard := by
    rw [hloads, List.getD_eq_getElem?_getD, List.getElem?_map, hright]
    rfl
  rw [map_exchange _ hne hleft hright, shardLoad_replace hls, shardLoad_replace hrs, ← hl, ← hr,
    ← hloads]
  rfl

theorem exchange_comm (hne : left ≠ right) :
    (swapOf messageRate loads left right leftSymbol rightSymbol).exchange shards =
      (swapOf messageRate loads right left rightSymbol leftSymbol).exchange shards :=
  List.modify_modify_ne _ _ _ hne

end Exchange

/-! ## Runs -/

/-- One pass of the loop that makes a swap. -/
def SwapStep (messageRate : Symbol → Int) (before : List (List Symbol) × List Int)
    (swap : Swap Symbol) (after : List (List Symbol) × List Int) : Prop :=
  bestSwap messageRate before.1 before.2 = some swap ∧
    after = (swap.exchange before.1, swap.nextLoads before.2)

/-- What swaps keep of the shards that the loop began with. -/
structure Rearranged (messageRate : Symbol → Int) (shards : List (List Symbol))
    (state : List (List Symbol) × List Int) : Prop where
  loads : state.2 = state.1.map (shardLoad messageRate)
  lengths : state.1.map List.length = shards.map List.length
  symbols : state.1.flatten.Perm shards.flatten

section Runs
variable {messageRate : Symbol → Int} {shards : List (List Symbol)}
  {before after : List (List Symbol) × List Int} {swap : Swap Symbol}

omit [DecidableEq Symbol] in
theorem Rearranged.refl (messageRate : Symbol → Int) (shards : List (List Symbol)) :
    Rearranged messageRate shards (shards, shards.map (shardLoad messageRate)) :=
  ⟨rfl, rfl, .refl _⟩

theorem Rearranged.step (h : Rearranged messageRate shards before)
    (hstep : SwapStep messageRate before swap after) : Rearranged messageRate shards after := by
  obtain ⟨hbest, rfl⟩ := hstep
  obtain ⟨left, right, leftShard, rightShard, leftSymbol, rightSymbol, hlt, hleft, hright, hls, hrs,
    rfl⟩ := mem_swaps.mp (bestSwap_some hbest).1
  have hne : left ≠ right := Nat.ne_of_lt hlt
  constructor
  · exact (loads_exchange hne hleft hright hls hrs h.loads).symm
  · exact (lengths_exchange hne hleft hright hls hrs).trans h.lengths
  · exact (perm_exchange hne hleft hright hls hrs).trans h.symbols

theorem SwapStep.spread_lt (hstep : SwapStep messageRate before swap after) :
    spread after.2 < spread before.2 := by
  obtain ⟨hbest, rfl⟩ := hstep
  exact (bestSwap_some hbest).2

/-- The loop makes swaps, no more than it may, and stops when there is none left. -/
theorem improveBalance_run (messageRate : Symbol → Int) (shards : List (List Symbol))
    (loads : List Int) (maxSwaps : Option Nat) :
    ∃ made, Run (SwapStep messageRate) (shards, loads) made
        (improveBalance messageRate shards loads maxSwaps) ∧
      (made.length : Int) ≤ spread loads ∧
      (∀ bound ∈ maxSwaps, made.length ≤ bound) ∧
      (maxSwaps = none → bestSwap messageRate
        (improveBalance messageRate shards loads maxSwaps).1
        (improveBalance messageRate shards loads maxSwaps).2 = none) := by
  induction shards, loads, maxSwaps using improveBalance.induct messageRate with
  | case1 shards loads =>
    rw [improveBalance, if_pos rfl]
    exact ⟨[], .nil _, spread_nonneg loads, fun bound _ => Nat.zero_le bound, nofun⟩
  | case2 shards loads maxSwaps hmax hbest =>
    have heq : improveBalance messageRate shards loads maxSwaps = (shards, loads) := by
      rw [improveBalance, if_neg hmax]
      split
      · rfl
      · rename_i hsome
        cases hbest.symm.trans hsome
    rw [heq]
    exact ⟨[], .nil _, spread_nonneg loads, fun bound _ => Nat.zero_le bound, fun _ => hbest⟩
  | case3 shards loads maxSwaps hmax swap hbest ih =>
    have heq : improveBalance messageRate shards loads maxSwaps =
        improveBalance messageRate (swap.exchange shards) (swap.nextLoads loads)
          (maxSwaps.map (· - 1)) := by
      rw [improveBalance, if_neg hmax]
      split
      · rename_i hnone
        cases hbest.symm.trans hnone
      · rename_i hsome
        cases hbest.symm.trans hsome
        rfl
    rw [heq]
    obtain ⟨made, hrun, hspread, hbound, hnone⟩ := ih
    have hstep : SwapStep messageRate (shards, loads) swap
        (swap.exchange shards, swap.nextLoads loads) := ⟨hbest, rfl⟩
    have hlt : spread (swap.nextLoads loads) < spread loads := hstep.spread_lt
    refine ⟨swap :: made, .cons hstep hrun, ?_, fun bound hm => ?_, fun hunbounded => ?_⟩
    · rw [List.length_cons]
      omega
    · have hpositive : bound ≠ 0 := by
        intro hzero
        apply hmax
        rw [Option.mem_def.mp hm, hzero]
      have hle := hbound (bound - 1) (by rw [Option.mem_def.mp hm]; rfl)
      rw [List.length_cons]
      omega
    · apply hnone
      rw [hunbounded]
      rfl

/-- Every state of a run of swaps is a rearrangement of the first one. -/
theorem Rearranged.run {made : List (Swap Symbol)} {state : List (List Symbol) × List Int}
    (hrun : Run (SwapStep messageRate) (shards, shards.map (shardLoad messageRate)) made state) :
    Rearranged messageRate shards state :=
  hrun.preserves (fun h hstep => h.step hstep) (.refl messageRate shards)

/-- Without a limit the loop ends after finitely many swaps, each of which narrows the spread,
and no swap of two symbols would narrow it any more. -/
theorem improveBalance_optimal (messageRate : Symbol → Int) (shards : List (List Symbol)) :
    let loads := shards.map (shardLoad messageRate)
    let result := improveBalance messageRate shards loads none
    (∃ made, Run (SwapStep messageRate) (shards, loads) made result ∧
      (made.length : Int) ≤ spread loads) ∧
    (∀ made state, Run (SwapStep messageRate) (shards, loads) made state →
      Rearranged messageRate shards state ∧
      ∀ swap next, SwapStep messageRate state swap next → spread next.2 < spread state.2) ∧
    ∀ left right leftShard rightShard leftSymbol rightSymbol, left ≠ right →
      result.1[left]? = some leftShard → result.1[right]? = some rightShard →
      leftSymbol ∈ leftShard → rightSymbol ∈ rightShard →
      spread result.2 ≤ spread
        (((swapOf messageRate result.2 left right leftSymbol rightSymbol).exchange result.1).map
          (shardLoad messageRate)) := by
  intro loads result
  obtain ⟨made, hrun, hbound, -, hnone⟩ := improveBalance_run messageRate shards loads none
  have hnone : bestSwap messageRate result.1 result.2 = none := hnone rfl
  have hresult : Rearranged messageRate shards result := .run hrun
  refine ⟨⟨made, hrun, hbound⟩, fun made state hrun => ⟨.run hrun, fun swap next hstep =>
    hstep.spread_lt⟩, ?_⟩
  have hordered : ∀ left right leftShard rightShard leftSymbol rightSymbol, left < right →
      result.1[left]? = some leftShard → result.1[right]? = some rightShard →
      leftSymbol ∈ leftShard → rightSymbol ∈ rightShard →
      spread result.2 ≤ spread
        (((swapOf messageRate result.2 left right leftSymbol rightSymbol).exchange result.1).map
          (shardLoad messageRate)) := by
    intro left right leftShard rightShard leftSymbol rightSymbol hlt hleft hright hls hrs
    rw [loads_exchange (Nat.ne_of_lt hlt) hleft hright hls hrs hresult.loads]
    exact bestSwap_none hnone _ (mem_swaps.mpr ⟨left, right, leftShard, rightShard, leftSymbol,
      rightSymbol, hlt, hleft, hright, hls, hrs, rfl⟩)
  intro left right leftShard rightShard leftSymbol rightSymbol hne hleft hright hls hrs
  cases Nat.lt_or_gt_of_ne hne with
  | inl hlt => exact hordered _ _ _ _ _ _ hlt hleft hright hls hrs
  | inr hgt =>
    rw [exchange_comm hne]
    exact hordered _ _ _ _ _ _ hgt hright hleft hrs hls

end Runs

end MiryFormal
