import Mathlib.Data.List.MinMax
import Mathlib.Data.List.Sort
import Mathlib.Data.Prod.Lex
import Mathlib.Data.String.Basic
import MiryFormal.Shared.Fallible
import MiryFormal.Shared.KeyedDict
import MiryFormal.Shared.LeastLoaded

/-!
# Download lanes

`partition_downloads` spreads the files of an inventory over the lanes that are synchronised side
by side: the largest first, each into the lane with the least to download so far.
-/

namespace MiryFormal

set_option autoImplicit false

/-- The lanes, and `sizes`. -/
structure DownloadLanes where
  lanes : List (List String)
  sizes : List Nat
  deriving DecidableEq

/-- The order of `sorted(downloads.items(), key=lambda value: (-value[1], value[0]))`. -/
def LargerFirst (a b : String × Nat) : Prop := if a.2 = b.2 then a.1 ≤ b.1 else b.2 ≤ a.2

instance : DecidableRel LargerFirst := fun _ _ => inferInstanceAs (Decidable (ite _ _ _))

/-- `min(range(lane_count), key=lambda index: (sizes[index], index))` -/
def leastLane (laneCount : Nat) (sizes : List Nat) : Option Nat :=
  (List.range laneCount).argmin fun index => toLex (sizes.getD index 0, index)

/-- One pass of the loop. -/
def assignDownload (laneCount : Nat) (state : DownloadLanes) (download : String × Nat) :
    Except String DownloadLanes :=
  match leastLane laneCount state.sizes with
  | none => .error "min() iterable argument is empty"
  | some lane => .ok {
      lanes := state.lanes.modify lane (· ++ [download.1])
      sizes := state.sizes.modify lane (· + download.2) }

def partitionDownloads (downloads : List (String × Nat)) (laneLimit : Nat) :
    Except String (List (List String)) :=
  let laneCount := min laneLimit downloads.length
  if laneCount = 0 then .ok []
  else do
    let state ← (downloads.insertionSort LargerFirst).foldlM (assignDownload laneCount)
      { lanes := List.replicate laneCount [], sizes := List.replicate laneCount 0 }
    return state.lanes

/-- The sizes of a list of paths. -/
def downloadSize (downloads : List (String × Nat)) (path : String) : Nat :=
  (KeyedDict.get id path downloads).getD 0

/-! ## The loop -/

open LeastLoaded

/-- The lanes with the sizes of their files. -/
structure DownloadLanes.Holds (laneCount : Nat) (bins : List (List (String × Nat)))
    (state : DownloadLanes) : Prop where
  count : bins.length = laneCount
  lanes : state.lanes = bins.map fun bin => bin.map Prod.fst
  sizes : state.sizes = bins.map (load Prod.snd)

/-- What the loop has done with the first downloads. -/
structure Spread (laneCount : Nat) (done : List (String × Nat))
    (bins : List (List (String × Nat))) : Prop where
  balanced : Balanced Prod.snd bins
  assigned : bins.flatten.Perm done
  empty : emptyCount bins = laneCount - done.length

variable {laneCount : Nat} {done : List (String × Nat)} {bins : List (List (String × Nat))}
variable {state : DownloadLanes}

theorem leastLane_least (h : state.Holds laneCount bins) (hcount : 0 < laneCount) :
    ∃ lane bin, leastLane laneCount state.sizes = some lane ∧ Least Prod.snd bins lane bin := by
  have hsize : ∀ index bin, bins[index]? = some bin →
      state.sizes.getD index 0 = load Prod.snd bin := by
    intro index bin hget
    rw [h.sizes, List.getD_eq_getElem?_getD, List.getElem?_map, hget]
    rfl
  cases hleast : leastLane laneCount state.sizes with
  | none =>
    unfold leastLane at hleast
    rw [List.argmin_eq_none] at hleast
    have hzero := List.range_eq_nil.mp hleast
    omega
  | some lane =>
    have hlt : lane < bins.length := by
      rw [h.count]
      exact List.mem_range.mp (List.argmin_mem hleast)
    refine ⟨lane, bins[lane], rfl, List.getElem?_eq_getElem hlt, ?_⟩
    intro other hother
    obtain ⟨index, hindex, rfl⟩ := List.getElem_of_mem hother
    have hmem : index ∈ List.range laneCount := by
      rw [List.mem_range, ← h.count]
      exact hindex
    have hle := List.le_of_mem_argmin hmem hleast
    rw [hsize lane _ (List.getElem?_eq_getElem hlt),
      hsize index _ (List.getElem?_eq_getElem hindex), Prod.Lex.toLex_le_toLex] at hle
    cases hle with
    | inl hlt => exact Nat.le_of_lt hlt
    | inr heq => exact Nat.le_of_eq heq.1

theorem modify_map {α β : Type} (f : α → β) (g : α → α) (g' : β → β)
    (h : ∀ a, f (g a) = g' (f a)) (l : List α) (index : Nat) :
    (l.map f).modify index g' = (l.modify index g).map f := by
  induction l generalizing index with
  | nil => cases index <;> rfl
  | cons a l ih =>
    cases index with
    | zero => simp [h]
    | succ index => simp [ih]

theorem modify_eq_set {α : Type} {l : List α} {index : Nat} {a : α} (h : l[index]? = some a)
    (g : α → α) : l.modify index g = l.set index (g a) := by
  induction l generalizing index with
  | nil => cases h
  | cons first l ih =>
    cases index with
    | zero =>
      cases h
      rfl
    | succ index =>
      have hrest := @ih index h
      simp [hrest]

theorem assignDownload_holds (h : state.Holds laneCount bins) (hspread : Spread laneCount done bins)
    (hcount : 0 < laneCount) (hpositive : ∀ entry ∈ done, 0 < entry.2)
    (download : String × Nat) :
    ∃ after next, assignDownload laneCount state download = .ok after ∧
      after.Holds laneCount next ∧ Spread laneCount (done ++ [download]) next := by
  obtain ⟨lane, bin, hlane, hleast⟩ := leastLane_least h hcount
  have hnext : bins.modify lane (· ++ [download]) = bins.set lane (bin ++ [download]) :=
    modify_eq_set hleast.1 _
  refine ⟨_, bins.set lane (bin ++ [download]), by rw [assignDownload, hlane], ?_, ?_⟩
  · constructor
    · rw [List.length_set, h.count]
    · rw [h.lanes, ← hnext]
      apply modify_map
      intro paths
      rw [List.map_append, List.map_singleton]
    · rw [h.sizes, ← hnext]
      apply modify_map
      intro paths
      rw [load_snoc]
  · constructor
    · exact hspread.balanced.assign hleast download
    · obtain ⟨hlt, hat⟩ := List.getElem?_eq_some_iff.mp hleast.1
      have hsplit : bins = bins.take lane ++ bin :: bins.drop (lane + 1) := by
        rw [← hat, List.getElem_cons_drop, List.take_append_drop]
      have hflat : (bins.set lane (bin ++ [download])).flatten.Perm
          (bins.flatten ++ [download]) := by
        rw [List.set_eq_take_append_cons_drop, if_pos hlt]
        conv_rhs => rw [hsplit]
        simp only [List.flatten_append, List.flatten_cons, List.append_assoc]
        apply List.Perm.append_left
        apply List.Perm.append_left
        exact List.perm_append_comm
      exact hflat.trans (hspread.assigned.append_right _)
    · have hitems : ∀ other ∈ bins, ∀ item ∈ other, 0 < item.2 := by
        intro other hother item hitem
        apply hpositive
        exact hspread.assigned.mem_iff.mp (List.mem_flatten_of_mem hother hitem)
      rw [emptyCount_assign hitems hleast, hspread.empty, List.length_append,
        List.length_singleton]
      omega

theorem assignDownloads_holds (hcount : 0 < laneCount) (downloads : List (String × Nat))
    (hpositive : ∀ entry ∈ done ++ downloads, 0 < entry.2) (h : state.Holds laneCount bins)
    (hspread : Spread laneCount done bins) :
    ∃ after next, downloads.foldlM (assignDownload laneCount) state = .ok after ∧
      after.Holds laneCount next ∧ Spread laneCount (done ++ downloads) next := by
  induction downloads generalizing done state bins with
  | nil =>
    rw [List.append_nil]
    exact ⟨state, bins, rfl, h, hspread⟩
  | cons download downloads ih =>
    have hdone : ∀ entry ∈ done, 0 < entry.2 :=
      fun entry hm => hpositive entry (List.mem_append_left _ hm)
    obtain ⟨middle, between, hok, hmiddle, hbetween⟩ :=
      assignDownload_holds h hspread hcount hdone download
    rw [List.append_cons] at hpositive ⊢
    obtain ⟨after, next, hrest, hafter, hnext⟩ := ih hpositive hmiddle hbetween
    refine ⟨after, next, ?_, hafter, hnext⟩
    rw [List.foldlM_cons]
    exact bind_eq hok hrest

section Sizes
variable {downloads : List (String × Nat)} {bin : List (String × Nat)}

theorem downloadSize_of_mem (hdistinct : KeyedDict.Distinct id downloads) {entry : String × Nat}
    (hm : entry ∈ downloads) : downloadSize downloads entry.1 = entry.2 := by
  unfold downloadSize
  rw [← id_eq entry.1, KeyedDict.get_of_mem hdistinct hm]
  rfl

theorem load_paths (hdistinct : KeyedDict.Distinct id downloads)
    (hsub : ∀ entry ∈ bin, entry ∈ downloads) :
    load (downloadSize downloads) (bin.map Prod.fst) = load Prod.snd bin := by
  unfold load
  rw [List.map_map]
  congr 1
  apply List.map_congr_left
  intro entry hm
  exact downloadSize_of_mem hdistinct (hsub entry hm)

theorem lastWeight_paths (hdistinct : KeyedDict.Distinct id downloads)
    (hsub : ∀ entry ∈ bin, entry ∈ downloads) :
    lastWeight (downloadSize downloads) (bin.map Prod.fst) = lastWeight Prod.snd bin := by
  unfold lastWeight
  rw [List.getLast?_map]
  cases hlast : bin.getLast? with
  | none => rfl
  | some entry => exact downloadSize_of_mem hdistinct (hsub entry (List.mem_of_getLast? hlast))

end Sizes

/-- What the loop leaves at its end. -/
theorem partitionDownloads_spread {downloads : List (String × Nat)}
    (hpositive : ∀ entry ∈ downloads, 0 < entry.2) {laneLimit : Nat} (hlimit : 1 ≤ laneLimit) :
    ∃ bins, partitionDownloads downloads laneLimit = .ok (bins.map fun bin => bin.map Prod.fst) ∧
      bins.length = min laneLimit downloads.length ∧ Balanced Prod.snd bins ∧
      bins.flatten.Perm downloads ∧ emptyCount bins = 0 := by
  unfold partitionDownloads
  generalize hcount : min laneLimit downloads.length = laneCount
  dsimp only
  by_cases hzero : laneCount = 0
  · have hnil : downloads = [] := List.length_eq_zero_iff.mp (by omega)
    rw [if_pos hzero, hnil]
    exact ⟨[], rfl, hzero.symm, nofun, .nil, rfl⟩
  · rw [if_neg hzero]
    have hstart : DownloadLanes.Holds laneCount (List.replicate laneCount [])
        { lanes := List.replicate laneCount [], sizes := List.replicate laneCount 0 } := by
      constructor
      · exact List.length_replicate
      · rw [List.map_replicate, List.map_nil]
      · rw [List.map_replicate, load_nil]
    have hnothing : Spread laneCount [] (List.replicate laneCount []) := by
      constructor
      · exact balanced_replicate laneCount
      · rw [List.flatten_replicate_nil]
      · unfold emptyCount
        rw [List.countP_replicate, List.length_nil, Nat.sub_zero]
        rfl
    have hsorted := List.perm_insertionSort LargerFirst downloads
    have hsizes : ∀ entry ∈ [] ++ downloads.insertionSort LargerFirst, 0 < entry.2 := by
      intro entry hm
      exact hpositive entry (hsorted.mem_iff.mp hm)
    obtain ⟨after, bins, hok, hafter, hspread⟩ :=
      assignDownloads_holds (Nat.pos_of_ne_zero hzero) _ hsizes hstart hnothing
    rw [List.nil_append] at hspread
    refine ⟨bins, ?_, hafter.count, hspread.balanced, hspread.assigned.trans hsorted, ?_⟩
    · apply bind_eq hok
      rw [hafter.lanes]
      rfl
    · rw [hspread.empty, hsorted.length_eq]
      omega

/-- Every path is in exactly one lane, no lane is empty, and the lanes are balanced: whatever a
lane has got before its last file, every other lane has at least as much. -/
theorem partitionDownloads_balanced (downloads : List (String × Nat))
    (hdistinct : KeyedDict.Distinct id downloads) (hpositive : ∀ entry ∈ downloads, 0 < entry.2)
    (laneLimit : Nat) (hlimit : 1 ≤ laneLimit) :
    ∃ lanes, partitionDownloads downloads laneLimit = .ok lanes ∧
      lanes.length = min laneLimit downloads.length ∧
      (∀ lane ∈ lanes, lane ≠ []) ∧
      lanes.flatten.Perm (downloads.map Prod.fst) ∧ lanes.flatten.Nodup ∧
      (∀ lane ∈ lanes, ∀ other ∈ lanes, load (downloadSize downloads) lane -
        lastWeight (downloadSize downloads) lane ≤ load (downloadSize downloads) other) ∧
      ∀ largest, (∀ entry ∈ downloads, entry.2 ≤ largest) → ∀ lane ∈ lanes,
        (load (downloadSize downloads) lane : Rat) ≤
          (downloads.map Prod.snd).sum / lanes.length + (1 - 1 / lanes.length) * largest := by
  obtain ⟨bins, hok, hlength, hbalanced, hperm, hempty⟩ :=
    partitionDownloads_spread hpositive hlimit
  have hsub : ∀ bin ∈ bins, ∀ entry ∈ bin, entry ∈ downloads := by
    intro bin hbin entry hm
    exact hperm.mem_iff.mp (List.mem_flatten_of_mem hbin hm)
  have hpaths : (bins.map fun bin => bin.map Prod.fst).flatten.Perm (downloads.map Prod.fst) := by
    rw [← List.map_flatten]
    exact hperm.map Prod.fst
  refine ⟨bins.map fun bin => bin.map Prod.fst, hok, ?_, ?_, hpaths, ?_, ?_, ?_⟩
  · rw [List.length_map, hlength]
  · intro lane hlane hnil
    obtain ⟨bin, hbin, rfl⟩ := List.mem_map.mp hlane
    apply List.countP_eq_zero.mp hempty bin hbin
    rw [List.map_eq_nil_iff.mp hnil]
    rfl
  · exact hpaths.nodup_iff.mpr hdistinct
  · intro lane hlane other hother
    obtain ⟨bin, hbin, rfl⟩ := List.mem_map.mp hlane
    obtain ⟨second, hsecond, rfl⟩ := List.mem_map.mp hother
    rw [load_paths hdistinct (hsub bin hbin), lastWeight_paths hdistinct (hsub bin hbin),
      load_paths hdistinct (hsub second hsecond)]
    exact Nat.sub_le_iff_le_add.mpr (hbalanced bin hbin second hsecond)
  · intro largest hlargest lane hlane
    obtain ⟨bin, hbin, rfl⟩ := List.mem_map.mp hlane
    have htotal : load Prod.snd bins.flatten = (downloads.map Prod.snd).sum :=
      (hperm.map Prod.snd).sum_eq
    rw [load_paths hdistinct (hsub bin hbin), ← htotal, List.length_map]
    apply hbalanced.load_le hbin
    intro entry hm
    exact hlargest entry (hperm.mem_iff.mp hm)

theorem partitionDownloads_balanced_three : ∃ lanes,
    partitionDownloads [("a", 5), ("b", 3), ("c", 3)] 2 = .ok lanes ∧ lanes.length = 2 ∧
      lanes.flatten.Perm ["a", "b", "c"] ∧ lanes.flatten.Nodup := by
  have hdistinct : KeyedDict.Distinct id [("a", 5), ("b", 3), ("c", 3)] := by
    unfold KeyedDict.Distinct
    decide
  obtain ⟨lanes, hok, hlength, -, hperm, hnodup, -⟩ :=
    partitionDownloads_balanced [("a", 5), ("b", 3), ("c", 3)] hdistinct (by decide) 2 (by decide)
  exact ⟨lanes, hok, hlength, hperm, hnodup⟩

end MiryFormal
