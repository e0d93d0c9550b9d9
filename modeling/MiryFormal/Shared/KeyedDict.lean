import Mathlib.Algebra.GroupWithZero.Nat
import Mathlib.Data.List.Induction

/-!
# Insertion-ordered dictionaries

Keys are compared through `code`, the class under which a hash table identifies them.
Setting an existing key keeps the key object that is already stored and its place.
-/

namespace MiryFormal.KeyedDict

set_option autoImplicit false

universe u v w

variable {κ : Type u} {γ : Type v} {β : Type w} [DecidableEq γ]

/-- `d.get(key)`, for a key of class `c`. -/
def get (code : κ → γ) (c : γ) : List (κ × β) → Option β
  | [] => none
  | (key, value) :: d => if code key = c then some value else get code c d

/-- `d[key] = value`. -/
def set (code : κ → γ) (key : κ) (value : β) : List (κ × β) → List (κ × β)
  | [] => [(key, value)]
  | (key', value') :: d =>
      if code key' = code key then (key', value) :: d
      else (key', value') :: set code key value d

/-- `d.pop(key, None)`, for a key of class `c`. -/
def pop (code : κ → γ) (c : γ) : List (κ × β) → List (κ × β)
  | [] => []
  | (key, value) :: d => if code key = c then pop code c d else (key, value) :: pop code c d

variable {code : κ → γ}

@[simp] theorem get_nil (c : γ) : get code c ([] : List (κ × β)) = none := rfl

theorem get_set (key : κ) (value : β) (d : List (κ × β)) (c : γ) :
    get code c (set code key value d) = if code key = c then some value else get code c d := by
  induction d with
  | nil => rfl
  | cons entry d ih =>
    obtain ⟨key', value'⟩ := entry
    by_cases hkey : code key' = code key
    · by_cases hc : code key = c <;> simp [set, get, hkey, hc]
    · by_cases hc : code key = c
      · have hne : code key' ≠ c := fun h => hkey (h.trans hc.symm)
        simp only [set, if_neg hkey, get, if_neg hne, ih]
      · simp only [set, if_neg hkey, get, ih, if_neg hc]

/-- A new key goes to the end. -/
theorem set_of_get_eq_none {key : κ} {d : List (κ × β)} (h : get code (code key) d = none)
    (value : β) : set code key value d = d ++ [(key, value)] := by
  induction d with
  | nil => rfl
  | cons entry d ih =>
    rw [get] at h
    by_cases hkey : code entry.1 = code key
    · rw [if_pos hkey] at h
      cases h
    · rw [if_neg hkey] at h
      rw [set, if_neg hkey, ih h]
      rfl

/-- The sum of the values, where the one of `key` is replaced. -/
theorem sum_set (key : κ) (value : Nat) (d : List (κ × Nat)) :
    ((set code key value d).map Prod.snd).sum + (get code (code key) d).getD 0 =
      (d.map Prod.snd).sum + value := by
  induction d with
  | nil => simp [set]
  | cons entry d ih =>
    obtain ⟨key', value'⟩ := entry
    by_cases hkey : code key' = code key
    · simp only [set, get, if_pos hkey, List.map_cons, List.sum_cons, Option.getD_some]
      omega
    · simp only [set, get, if_neg hkey, List.map_cons, List.sum_cons]
      omega

theorem get_pop (c c' : γ) (d : List (κ × β)) :
    get code c' (pop code c d) = if c = c' then none else get code c' d := by
  induction d with
  | nil => simp [pop]
  | cons entry d ih =>
    obtain ⟨key, value⟩ := entry
    by_cases hkey : code key = c
    · subst hkey
      by_cases hc : code key = c'
      · simp only [pop, if_true, ih, if_pos hc]
      · simp only [pop, if_true, ih, get, if_neg hc]
    · by_cases hc : code key = c'
      · have hne : c ≠ c' := fun h => hkey (hc.trans h.symm)
        simp only [pop, if_neg hkey, get, if_pos hc, if_neg hne]
      · simp only [pop, if_neg hkey, get, if_neg hc, ih]

theorem get_map (g : β → β) (d : List (κ × β)) (c : γ) :
    get code c (d.map fun entry => (entry.1, g entry.2)) = (get code c d).map g := by
  induction d with
  | nil => rfl
  | cons entry d ih =>
    by_cases hc : code entry.1 = c
    · simp [get, hc]
    · simp [get, hc, ih]

theorem mem_of_get {c : γ} {value : β} {d : List (κ × β)} (h : get code c d = some value) :
    ∃ key, (key, value) ∈ d ∧ code key = c := by
  induction d with
  | nil => cases h
  | cons entry d ih =>
    obtain ⟨key', value'⟩ := entry
    rw [get] at h
    split at h
    · rename_i hc
      cases h
      exact ⟨key', List.mem_cons_self, hc⟩
    · obtain ⟨key, hm, hc⟩ := ih h
      exact ⟨key, List.mem_cons_of_mem _ hm, hc⟩

theorem isSome_get_of_mem {d : List (κ × β)} {entry : κ × β} (hm : entry ∈ d) :
    (get code (code entry.1) d).isSome := by
  induction d with
  | nil => cases hm
  | cons first d ih =>
    rw [get]
    split
    · rfl
    · rename_i hne
      rcases List.mem_cons.mp hm with rfl | hm
      · exact absurd rfl hne
      · exact ih hm

theorem mem_set {key : κ} {value : β} {d : List (κ × β)} {entry : κ × β}
    (h : entry ∈ set code key value d) :
    entry ∈ d ∨ code entry.1 = code key ∧ entry.2 = value := by
  induction d with
  | nil =>
    rw [set, List.mem_singleton] at h
    exact .inr (by simp [h])
  | cons first d ih =>
    obtain ⟨key', value'⟩ := first
    rw [set] at h
    split at h
    · rename_i hc
      rcases List.mem_cons.mp h with rfl | hm
      · exact .inr ⟨hc, rfl⟩
      · exact .inl (List.mem_cons_of_mem _ hm)
    · rcases List.mem_cons.mp h with rfl | hm
      · exact .inl List.mem_cons_self
      · exact (ih hm).imp_left (List.mem_cons_of_mem _)

/-- Setting a key adds no other one, and takes none away. -/
theorem forall_keys_set {P : γ → Prop} {key : κ} {value : β} {d : List (κ × β)} :
    (∀ entry ∈ set code key value d, P (code entry.1)) ↔
      P (code key) ∧ ∀ entry ∈ d, P (code entry.1) := by
  induction d with
  | nil => simp [set]
  | cons first d ih =>
    obtain ⟨key', value'⟩ := first
    rw [set]
    split
    · rename_i hc
      rw [List.forall_mem_cons, List.forall_mem_cons, hc]
      exact ⟨fun h => ⟨h.1, h⟩, fun h => h.2⟩
    · rw [List.forall_mem_cons, List.forall_mem_cons, ih]
      exact and_left_comm

theorem mem_keys_set [DecidableEq κ] {key other : κ} {value : β} {d : List (κ × β)} :
    other ∈ (set id key value d).map Prod.fst ↔ other = key ∨ other ∈ d.map Prod.fst := by
  induction d with
  | nil => simp [set]
  | cons entry d ih =>
    obtain ⟨first, stored⟩ := entry
    rw [set]
    by_cases hfirst : first = key
    · simp [hfirst]
    · rw [if_neg (by simpa using hfirst), List.map_cons, List.mem_cons, ih, List.map_cons,
        List.mem_cons]
      tauto

/-- No two entries have keys of one class. -/
def Distinct (code : κ → γ) (d : List (κ × β)) : Prop :=
  (d.map fun entry => code entry.1).Nodup

theorem get_of_mem {d : List (κ × β)} (h : Distinct code d) {entry : κ × β} (hm : entry ∈ d) :
    get code (code entry.1) d = some entry.2 := by
  induction d with
  | nil => simp at hm
  | cons first d ih =>
    obtain ⟨hfirst, hrest⟩ := List.nodup_cons.mp h
    obtain ⟨key', value'⟩ := first
    rcases List.mem_cons.mp hm with rfl | hm
    · exact if_pos rfl
    · have hne : ¬ code key' = code entry.1 := fun heq =>
        hfirst (List.mem_map.mpr ⟨entry, hm, heq.symm⟩)
      rw [get, if_neg hne]
      exact ih hrest hm

theorem value_eq_of_mem {d : List (κ × β)} (h : Distinct code d) {a b : κ × β} (ha : a ∈ d)
    (hb : b ∈ d) (heq : code a.1 = code b.1) : a.2 = b.2 := by
  have hget := get_of_mem h ha
  rw [heq, get_of_mem h hb] at hget
  exact (Option.some.inj hget).symm

/-- The order of the entries does not matter. -/
theorem get_perm {a b : List (κ × β)} (hperm : a.Perm b) (h : Distinct code a) (c : γ) :
    get code c a = get code c b := by
  have hb : Distinct code b := (hperm.map _).nodup_iff.mp h
  cases ha : get code c a with
  | none =>
    cases hc : get code c b with
    | none => rfl
    | some value =>
      obtain ⟨key, hm, rfl⟩ := mem_of_get hc
      rw [get_of_mem h (hperm.mem_iff.mpr hm)] at ha
      cases ha
  | some value =>
    obtain ⟨key, hm, rfl⟩ := mem_of_get ha
    exact (get_of_mem hb (hperm.mem_iff.mp hm)).symm

theorem get_eq_none_of_notMem {c : γ} {d : List (κ × β)}
    (h : ∀ entry ∈ d, code entry.1 ≠ c) : get code c d = none := by
  cases hget : get code c d with
  | none => rfl
  | some value =>
    obtain ⟨key, hm, hc⟩ := mem_of_get hget
    exact absurd hc (h _ hm)

theorem distinct_set {d : List (κ × β)} (h : Distinct code d) (key : κ) (value : β) :
    Distinct code (set code key value d) := by
  induction d with
  | nil => simp [Distinct, set]
  | cons first d ih =>
    obtain ⟨key', value'⟩ := first
    rw [set]
    split
    · exact h
    · rename_i hne
      obtain ⟨hfirst, hrest⟩ := List.nodup_cons.mp h
      refine List.nodup_cons.mpr ⟨fun hm => ?_, ih hrest⟩
      obtain ⟨entry, hm, heq⟩ := List.mem_map.mp hm
      rcases mem_set hm with hm | ⟨hkey, -⟩
      · exact hfirst (List.mem_map.mpr ⟨entry, hm, heq⟩)
      · exact hne (heq.symm.trans hkey)

/-- New keys stand in the order in which they were set. -/
theorem foldl_set {entries d : List (κ × β)} (h : Distinct code (d ++ entries)) :
    entries.foldl (fun d entry => set code entry.1 entry.2 d) d = d ++ entries := by
  induction entries generalizing d with
  | nil => exact (List.append_nil d).symm
  | cons entry entries ih =>
    have hnew : get code (code entry.1) d = none := by
      apply get_eq_none_of_notMem
      intro other hm hsame
      unfold Distinct at h
      rw [List.map_append] at h
      exact (List.nodup_append.mp h).2.2 _ (List.mem_map_of_mem hm) _ List.mem_cons_self hsame
    rw [List.append_cons] at h ⊢
    rw [List.foldl_cons, set_of_get_eq_none hnew]
    exact ih h

theorem pop_eq_filter (c : γ) (d : List (κ × β)) :
    pop code c d = d.filter fun entry => code entry.1 ≠ c := by
  induction d with
  | nil => rfl
  | cons first d ih =>
    by_cases hc : code first.1 = c
    · rw [List.filter_cons_of_neg (by simp [hc]), ← ih, pop, if_pos hc]
    · rw [List.filter_cons_of_pos (by simp [hc]), ← ih, pop, if_neg hc]

/-- Entries are kept or dropped by their class. -/
theorem get_filter (keep : γ → Bool) (c : γ) (d : List (κ × β)) :
    get code c (d.filter fun entry => keep (code entry.1)) =
      if keep c then get code c d else none := by
  induction d with
  | nil => simp
  | cons first d ih =>
    by_cases hkeep : keep (code first.1) = true
    · rw [List.filter_cons_of_pos (by exact hkeep), get, get, ih]
      by_cases hc : code first.1 = c
      · rw [if_pos hc, if_pos hc, if_pos (hc ▸ hkeep)]
      · rw [if_neg hc, if_neg hc]
    · rw [List.filter_cons_of_neg (by exact hkeep), ih, get]
      by_cases hc : code first.1 = c
      · rw [if_neg (hc ▸ hkeep), if_neg (hc ▸ hkeep)]
      · rw [if_neg hc]

theorem pop_sublist (c : γ) (d : List (κ × β)) : (pop code c d).Sublist d := by
  induction d with
  | nil => exact .slnil
  | cons first d ih =>
    rw [pop]
    split
    · exact ih.cons _
    · exact ih.cons_cons _

theorem distinct_pop {d : List (κ × β)} (h : Distinct code d) (c : γ) :
    Distinct code (pop code c d) :=
  h.sublist ((pop_sublist c d).map _)

/-! A dictionary after a log of writes holds, for each key, what the last write left. -/

/-- One write: a value to set, or nothing for a removal. -/
def write (code : κ → γ) (d : List (κ × β)) (entry : κ × Option β) : List (κ × β) :=
  match entry.2 with
  | some value => set code entry.1 value d
  | none => pop code (code entry.1) d

/-- What a log of writes leaves at the keys of class `c`, unless it does not write there. -/
def lastWrite (code : κ → γ) (c : γ) (log : List (κ × Option β)) : Option (Option β) :=
  (log.reverse.find? fun entry => code entry.1 = c).map Prod.snd

theorem get_write (entry : κ × Option β) (d : List (κ × β)) (c : γ) :
    get code c (write code d entry) = if code entry.1 = c then entry.2 else get code c d := by
  obtain ⟨key, value⟩ := entry
  cases value with
  | none => rw [write, get_pop]
  | some value => rw [write, get_set]

theorem get_foldl_write (log : List (κ × Option β)) (d : List (κ × β)) (c : γ) :
    get code c (log.foldl (write code) d) = (lastWrite code c log).getD (get code c d) := by
  induction log using List.reverseRecOn with
  | nil => rfl
  | append_singleton log entry ih =>
    rw [List.foldl_append, List.foldl_cons, List.foldl_nil, get_write, ih, lastWrite, lastWrite,
      List.reverse_append, List.reverse_singleton, List.singleton_append, List.find?_cons]
    by_cases hc : code entry.1 = c
    · simp [hc]
    · simp [hc]

end MiryFormal.KeyedDict
