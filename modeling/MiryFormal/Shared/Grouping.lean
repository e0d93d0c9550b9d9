import Mathlib.Data.List.Sort
import Mathlib.Data.Prod.Lex
import Mathlib.Order.Nat
import Mathlib.Data.List.Nodup

/-!
# Sorting by a key and cutting out its runs

The rows of a table are sorted by a key and, for one key, by their place. A run-end encoding of
the key column then says where the rows of each key begin and end.
-/

namespace MiryFormal

set_option autoImplicit false

universe u v

variable {α : Type u} {κ : Type v}

/-- The values of the runs of equal values, each with the place after its last one. The first
value is at `start`. -/
def runEndEncode [DecidableEq κ] (start : Nat) : List κ → List (κ × Nat)
  | [] => []
  | key :: keys =>
      match runEndEncode (start + 1) keys with
      | [] => [(key, start + 1)]
      | (next, stop) :: runs =>
          if key = next then (next, stop) :: runs
          else (key, start + 1) :: (next, stop) :: runs

/-- The rows of every run, from `start` on. -/
def cutRuns (rows : List α) (start : Nat) : List (κ × Nat) → List (κ × List α)
  | [] => []
  | (key, stop) :: runs =>
      (key, (rows.drop start).take (stop - start)) :: cutRuns rows stop runs

/-- The rows in the order of their keys and, for one key, of their places. -/
def sortByKey [LinearOrder κ] (key : α → κ) (rows : List α) : List α :=
  (rows.zipIdx.insertionSort fun a b => toLex (key a.1, a.2) ≤ toLex (key b.1, b.2)).map Prod.fst

theorem cutRuns_eq (rows : List α) (start : Nat) (runs : List (κ × Nat)) :
    (runs.zip (start :: (runs.map Prod.snd).dropLast)).map
        (fun run => (run.1.1, (rows.drop run.2).take (run.1.2 - run.2))) =
      cutRuns rows start runs := by
  induction runs generalizing start with
  | nil => rfl
  | cons run runs ih =>
    cases runs with
    | nil => rfl
    | cons next runs =>
      rw [List.map_cons, List.map_cons, List.dropLast_cons_cons, List.zip_cons_cons, List.map_cons]
      exact congrArg _ (ih run.2)

theorem runEndEncode_lt [DecidableEq κ] {start : Nat} {keys : List κ} {run : κ × Nat}
    (hm : run ∈ runEndEncode start keys) : start < run.2 := by
  induction keys generalizing start run with
  | nil => cases hm
  | cons key keys ih =>
    unfold runEndEncode at hm
    have hrest : ∀ other ∈ runEndEncode (start + 1) keys, start < other.2 := by
      intro other hother
      have hlt := ih hother
      omega
    split at hm
    · rw [List.mem_singleton.mp hm]
      exact Nat.lt_succ_self start
    · rename_i heq
      rw [heq] at hrest
      split at hm
      · exact hrest run hm
      · cases List.mem_cons.mp hm with
        | inl hrun =>
          rw [hrun]
          exact Nat.lt_succ_self start
        | inr hm => exact hrest run hm

/-- The runs of the key column cut the rows into pieces of one key each. -/
theorem cutRuns_runEndEncode [DecidableEq κ] (key : α → κ) (before rows : List α) :
    (cutRuns (before ++ rows) before.length
        (runEndEncode before.length (rows.map key))).flatMap Prod.snd = rows ∧
      ∀ piece ∈ cutRuns (before ++ rows) before.length
        (runEndEncode before.length (rows.map key)), ∀ row ∈ piece.2, key row = piece.1 := by
  induction rows generalizing before with
  | nil => exact ⟨rfl, nofun⟩
  | cons row rows ih =>
    have hrest := ih (before ++ [row])
    rw [List.append_assoc, List.singleton_append, List.length_append, List.length_singleton]
      at hrest
    have hdrop : (before ++ row :: rows).drop before.length =
        row :: (before ++ row :: rows).drop (before.length + 1) := by
      rw [List.drop_left, List.drop_length_add_append]
      rfl
    rw [List.map_cons]
    unfold runEndEncode
    have hlt : ∀ run ∈ runEndEncode (before.length + 1) (rows.map key),
        before.length + 1 < run.2 := fun run hm => runEndEncode_lt hm
    generalize runEndEncode (before.length + 1) (rows.map key) = runs at hrest hlt
    have hone : (row :: (before ++ row :: rows).drop (before.length + 1)).take
        (before.length + 1 - before.length) = [row] := by
      rw [Nat.add_sub_cancel_left]
      rfl
    cases runs with
    | nil =>
      have hnil : rows = [] := hrest.1.symm
      dsimp only [cutRuns]
      rw [hdrop, hone, hnil]
      refine ⟨rfl, fun piece hm other hother => ?_⟩
      rw [List.mem_singleton.mp hm] at hother ⊢
      rw [List.mem_singleton.mp hother]
    | cons run runs =>
      obtain ⟨hflat, hkeys⟩ := hrest
      have hstop := hlt run List.mem_cons_self
      by_cases heq : key row = run.1
      · dsimp only
        rw [if_pos heq]
        dsimp only [cutRuns] at hflat hkeys ⊢
        have htake : ((before ++ row :: rows).drop before.length).take (run.2 - before.length) =
            row :: ((before ++ row :: rows).drop (before.length + 1)).take
              (run.2 - (before.length + 1)) := by
          have hsub : run.2 - before.length = run.2 - (before.length + 1) + 1 := by omega
          rw [hdrop, hsub, List.take_succ_cons]
        rw [htake]
        constructor
        · rw [List.flatMap_cons] at hflat ⊢
          exact congrArg (List.cons row) hflat
        · intro piece hm other hother
          cases List.mem_cons.mp hm with
          | inl hpiece =>
            subst hpiece
            cases List.mem_cons.mp hother with
            | inl hother => rw [hother, heq]
            | inr hother => exact hkeys _ List.mem_cons_self other hother
          | inr hm => exact hkeys piece (List.mem_cons_of_mem _ hm) other hother
      · dsimp only
        rw [if_neg heq]
        unfold cutRuns
        rw [hdrop, hone]
        constructor
        · rw [List.flatMap_cons, hflat]
          rfl
        · intro piece hm other hother
          cases List.mem_cons.mp hm with
          | inl hpiece =>
            subst hpiece
            rw [List.mem_singleton.mp hother]
          | inr hm => exact hkeys piece hm other hother

example : cutRuns ['a', 'a', 'b'] 0 (runEndEncode 0 [1, 1, 2]) = [(1, ['a', 'a']), (2, ['b'])] := by
  decide

section Sorting
variable [LinearOrder κ] (key : α → κ) (rows : List α)

theorem sortByKey_perm : (sortByKey key rows).Perm rows := by
  have hperm := (List.perm_insertionSort
    (fun a b : α × Nat => toLex (key a.1, a.2) ≤ toLex (key b.1, b.2)) rows.zipIdx).map Prod.fst
  rw [List.zipIdx_map_fst] at hperm
  exact hperm

theorem filter_sortByKey {value : κ} {p : α → Bool} (hp : ∀ row, p row = true ↔ key row = value) :
    (sortByKey key rows).filter p = rows.filter p := by
  have hperm := List.perm_insertionSort
    (fun a b : α × Nat => toLex (key a.1, a.2) ≤ toLex (key b.1, b.2)) rows.zipIdx
  have hsorted := List.pairwise_insertionSort
    (fun a b : α × Nat => toLex (key a.1, a.2) ≤ toLex (key b.1, b.2)) rows.zipIdx
  have hplaces : rows.zipIdx.Pairwise fun a b => a.2 ≤ b.2 := by
    have hrange : (rows.zipIdx.map Prod.snd).Pairwise (· < ·) := by
      rw [List.zipIdx_map_snd]
      exact List.pairwise_lt_range'
    exact (List.pairwise_map.mp hrange).imp fun hlt => Nat.le_of_lt hlt
  have hkept : ((rows.zipIdx.insertionSort
      fun a b => toLex (key a.1, a.2) ≤ toLex (key b.1, b.2)).filter (p ∘ Prod.fst)).Pairwise
        fun a b => a.2 ≤ b.2 := by
    apply List.pairwise_filter.mpr
    apply hsorted.imp
    intro a b hle ha hb
    rw [(hp a.1).mp ha, (hp b.1).mp hb] at hle
    cases Prod.Lex.le_iff.mp hle with
    | inl hlt => exact absurd hlt (lt_irrefl value)
    | inr hle => exact hle.2
  have heq : (rows.zipIdx.insertionSort
      fun a b => toLex (key a.1, a.2) ≤ toLex (key b.1, b.2)).filter (p ∘ Prod.fst) =
        rows.zipIdx.filter (p ∘ Prod.fst) := by
    refine List.Perm.eq_of_pairwise ?_ hkept (hplaces.filter _) (hperm.filter _)
    intro a b ha hb hab hba
    have ha' := List.mem_zipIdx_iff_getElem?.mp
      (hperm.mem_iff.mp (List.mem_of_mem_filter ha))
    have hb' := List.mem_zipIdx_iff_getElem?.mp (List.mem_of_mem_filter hb)
    have hplace : a.2 = b.2 := Nat.le_antisymm hab hba
    rw [hplace, hb'] at ha'
    exact Prod.ext (Option.some.inj ha').symm hplace
  unfold sortByKey
  rw [List.filter_map, heq, ← List.filter_map, List.zipIdx_map_fst]

end Sorting

end MiryFormal
