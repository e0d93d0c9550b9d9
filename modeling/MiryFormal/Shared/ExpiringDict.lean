import Mathlib.Data.List.Sort
import Mathlib.Order.Basic
import Mathlib.Tactic.Common
import MiryFormal.Shared.KeyedDict

/-!
# Dictionaries that forget

Each value is stored under its time and scheduled in the bucket of that time. Pruning drops
expired buckets, and with them the values that were not written again since. A reader who
ignores what is older than its own cutoff cannot tell whether a dictionary was pruned.
-/

namespace MiryFormal

set_option autoImplicit false

universe u v

structure ExpiringDict (κ : Type u) (β : Type v) where
  entries : List (κ × (β × Int)) := []
  buckets : List (Int × List (κ × Int)) := []
  /-- The keys of `buckets`, the smallest first. -/
  heap : List Int := []

namespace ExpiringDict

variable {κ : Type u} {β : Type v} [DecidableEq κ]

def get (dict : ExpiringDict κ β) (key : κ) : Option (β × Int) :=
  KeyedDict.get id key dict.entries

/-- What a reader at `cutoff` makes of a stored value. -/
def live (cutoff : Int) (found : Option (β × Int)) : Option (β × Int) :=
  found.filter fun value => cutoff ≤ value.2

/-- `heapq.heappush` -/
def heappush (bucket : Int) (heap : List Int) : List Int := heap.orderedInsert (· ≤ ·) bucket

/-- A key is entered in the bucket of its time. -/
def schedule (size : Int) (dict : ExpiringDict κ β) (key : κ) (time : Int) : ExpiringDict κ β :=
  let bucket := time / size
  match KeyedDict.get id bucket dict.buckets with
  | none =>
      { dict with
        buckets := KeyedDict.set id bucket [(key, time)] dict.buckets
        heap := heappush bucket dict.heap }
  | some values =>
      { dict with buckets := KeyedDict.set id bucket (values ++ [(key, time)]) dict.buckets }

def store (size : Int) (dict : ExpiringDict κ β) (key : κ) (value : β) (time : Int) :
    ExpiringDict κ β :=
  { dict with entries := KeyedDict.set id key (value, time) dict.entries }.schedule size key time

/-- An entry of an expired bucket deletes its key, unless the key was written again since. -/
def forgetEntry (entries : List (κ × (β × Int))) (expired : κ × Int) : List (κ × (β × Int)) :=
  if (KeyedDict.get id expired.1 entries).map Prod.snd = some expired.2 then
    KeyedDict.pop id expired.1 entries
  else entries

/-- Buckets are taken from the heap as long as the smallest has expired. -/
def pruneFrom (expiredThrough : Int) (entries : List (κ × (β × Int))) :
    List Int → List (Int × List (κ × Int)) → Except String (ExpiringDict κ β)
  | [], buckets => .ok ⟨entries, buckets, []⟩
  | bucket :: heap, buckets =>
      if bucket ≤ expiredThrough then
        match KeyedDict.get id bucket buckets with
        | none => .error "KeyError"
        | some values =>
            pruneFrom expiredThrough (values.foldl forgetEntry entries) heap
              (KeyedDict.pop id bucket buckets)
      else .ok ⟨entries, buckets, bucket :: heap⟩

def prune (expiredThrough : Int) (dict : ExpiringDict κ β) : Except String (ExpiringDict κ β) :=
  pruneFrom expiredThrough dict.entries dict.heap dict.buckets

/-! ## Readers -/

@[simp] theorem live_none (cutoff : Int) : live cutoff (none : Option (β × Int)) = none := rfl

theorem live_some (cutoff : Int) (value : β × Int) :
    live cutoff (some value) = if cutoff ≤ value.2 then some value else none := by
  unfold live
  rw [Option.filter_some]
  simp only [decide_eq_true_eq]

theorem live_of_lt {cutoff : Int} {found : Option (β × Int)}
    (h : ∀ value, found = some value → value.2 < cutoff) : live cutoff found = none := by
  cases found with
  | none => rfl
  | some value =>
    rw [live_some]
    apply if_neg
    have := h value rfl
    omega

/-- A later reader only looks at what an earlier one sees. -/
theorem live_live {early late : Int} (h : early ≤ late) (found : Option (β × Int)) :
    live late (live early found) = live late found := by
  cases found with
  | none => rfl
  | some value =>
    rw [live_some, live_some]
    by_cases hlate : late ≤ value.2
    · rw [if_pos (h.trans hlate), live_some]
    · rw [if_neg hlate]
      apply live_of_lt
      intro found hfound
      split at hfound
      · cases hfound
        omega
      · cases hfound

/-! ## Buckets and heap -/

/-- Every bucket of the heap can be found, and holds keys of its own time. -/
structure Scheduled (size : Int) (heap : List Int) (buckets : List (Int × List (κ × Int))) :
    Prop where
  distinct : heap.Nodup
  held : ∀ bucket ∈ heap, ∃ values, KeyedDict.get id bucket buckets = some values
  timed : ∀ bucket values, KeyedDict.get id bucket buckets = some values →
    ∀ value ∈ values, value.2 / size = bucket

variable {size : Int}

omit [DecidableEq κ] in
theorem scheduled_empty : Scheduled size [] ([] : List (Int × List (κ × Int))) := by
  constructor
  · exact List.nodup_nil
  · intro bucket hm
    simp at hm
  · intro bucket values h
    simp at h

theorem store_entries (dict : ExpiringDict κ β) (key : κ) (value : β) (time : Int) :
    (dict.store size key value time).entries = KeyedDict.set id key (value, time) dict.entries := by
  unfold store schedule
  dsimp only
  split <;> rfl

theorem get_store (dict : ExpiringDict κ β) (key other : κ) (value : β) (time : Int) :
    (dict.store size key value time).get other =
      if key = other then some (value, time) else dict.get other := by
  unfold get
  rw [store_entries]
  exact KeyedDict.get_set key (value, time) dict.entries other

theorem scheduled_store {dict : ExpiringDict κ β} (h : Scheduled size dict.heap dict.buckets)
    (key : κ) (value : β) (time : Int) :
    Scheduled size (dict.store size key value time).heap
      (dict.store size key value time).buckets := by
  have htimed : ∀ values, (∀ value ∈ values, value.2 / size = time / size) →
      ∀ bucket found, KeyedDict.get id bucket
        (KeyedDict.set id (time / size) values dict.buckets) = some found →
      ∀ value ∈ found, value.2 / size = bucket := by
    intro values hvalues bucket found hfound entry hm
    rw [KeyedDict.get_set] at hfound
    split at hfound
    · rename_i hbucket
      cases hfound
      exact (hvalues entry hm).trans hbucket
    · exact h.timed bucket found hfound entry hm
  have hheld : ∀ values, ∀ bucket, bucket = time / size ∨ bucket ∈ dict.heap →
      ∃ found, KeyedDict.get id bucket
        (KeyedDict.set id (time / size) values dict.buckets) = some found := by
    intro values bucket hbucket
    rw [KeyedDict.get_set]
    split
    · exact ⟨values, rfl⟩
    · rename_i hne
      apply h.held bucket
      exact hbucket.resolve_left fun heq => hne heq.symm
  unfold store schedule
  cases hget : KeyedDict.get id (time / size) dict.buckets with
  | none =>
    simp only [hget]
    constructor
    · have hnew : time / size ∉ dict.heap := by
        intro hm
        obtain ⟨values, hvalues⟩ := h.held _ hm
        rw [hget] at hvalues
        cases hvalues
      apply (List.perm_orderedInsert _ _ _).nodup_iff.mpr
      exact List.nodup_cons.mpr ⟨hnew, h.distinct⟩
    · intro bucket hm
      apply hheld
      exact List.mem_cons.mp ((List.perm_orderedInsert _ _ _).mem_iff.mp hm)
    · apply htimed
      intro entry hm
      rw [List.mem_singleton.mp hm]
  | some values =>
    simp only [hget]
    refine ⟨h.distinct, fun bucket hm => hheld _ bucket (.inr hm), ?_⟩
    apply htimed
    intro entry hm
    rcases List.mem_append.mp hm with hm | hm
    · exact h.timed _ _ hget entry hm
    · rw [List.mem_singleton.mp hm]

/-! ## Pruning -/

/-- Nothing but values of expired buckets is gone. -/
structure Pruned (size expiredThrough : Int) (old new : List (κ × (β × Int))) : Prop where
  sublist : new.Sublist old
  kept : ∀ key, KeyedDict.get id key new = KeyedDict.get id key old ∨
    KeyedDict.get id key new = none ∧ ∃ value, KeyedDict.get id key old = some value ∧
      value.2 / size ≤ expiredThrough

variable {expiredThrough : Int} {old mid new : List (κ × (β × Int))}

theorem Pruned.refl (size expiredThrough : Int) (old : List (κ × (β × Int))) :
    Pruned size expiredThrough old old :=
  ⟨.refl _, fun _ => .inl rfl⟩

theorem Pruned.trans (h₁ : Pruned size expiredThrough old mid)
    (h₂ : Pruned size expiredThrough mid new) : Pruned size expiredThrough old new := by
  refine ⟨h₂.sublist.trans h₁.sublist, ?_⟩
  intro key
  rcases h₂.kept key with h | ⟨hnone, value, hvalue, hexpired⟩
  · rw [h]
    exact h₁.kept key
  · rcases h₁.kept key with h | ⟨hgone, -⟩
    · exact .inr ⟨hnone, value, h ▸ hvalue, hexpired⟩
    · rw [hgone] at hvalue
      cases hvalue

theorem pruned_forgetEntry {expired : κ × Int} (h : expired.2 / size ≤ expiredThrough) :
    Pruned size expiredThrough old (forgetEntry old expired) := by
  unfold forgetEntry
  split
  · rename_i hsame
    refine ⟨KeyedDict.pop_sublist _ _, ?_⟩
    intro key
    rw [KeyedDict.get_pop]
    split
    · rename_i hkey
      subst hkey
      obtain ⟨value, hvalue, htime⟩ := Option.map_eq_some_iff.mp hsame
      exact .inr ⟨rfl, value, hvalue, htime ▸ h⟩
    · exact .inl rfl
  · exact .refl _ _ _

theorem pruned_forget {values : List (κ × Int)}
    (h : ∀ value ∈ values, value.2 / size ≤ expiredThrough) :
    Pruned size expiredThrough old (values.foldl forgetEntry old) := by
  induction values generalizing old with
  | nil => exact .refl _ _ _
  | cons value values ih =>
    apply (pruned_forgetEntry (h value List.mem_cons_self)).trans
    apply ih
    intro later hm
    exact h later (List.mem_cons_of_mem _ hm)

theorem pruneFrom_ok {heap : List Int} {buckets : List (Int × List (κ × Int))}
    (h : Scheduled size heap buckets) :
    ∃ pruned, pruneFrom expiredThrough old heap buckets = .ok pruned ∧
      Scheduled size pruned.heap pruned.buckets ∧
      Pruned size expiredThrough old pruned.entries := by
  induction heap generalizing old buckets with
  | nil => exact ⟨_, rfl, h, .refl _ _ _⟩
  | cons bucket heap ih =>
    unfold pruneFrom
    by_cases hexpired : bucket ≤ expiredThrough
    · obtain ⟨values, hvalues⟩ := h.held bucket List.mem_cons_self
      obtain ⟨hnot, hdistinct⟩ := List.nodup_cons.mp h.distinct
      have hrest : Scheduled size heap (KeyedDict.pop id bucket buckets) := by
        constructor
        · exact hdistinct
        · intro other hm
          have hne : bucket ≠ other := by
            rintro rfl
            exact hnot hm
          rw [KeyedDict.get_pop, if_neg hne]
          exact h.held other (List.mem_cons_of_mem _ hm)
        · intro other found hfound
          rw [KeyedDict.get_pop] at hfound
          split at hfound
          · cases hfound
          · exact h.timed other found hfound
      obtain ⟨pruned, hok, hscheduled, hpruned⟩ := @ih (values.foldl forgetEntry old) _ hrest
      rw [if_pos hexpired, hvalues]
      refine ⟨pruned, hok, hscheduled, Pruned.trans ?_ hpruned⟩
      apply pruned_forget
      intro value hm
      rw [h.timed bucket values hvalues value hm]
      exact hexpired
    · rw [if_neg hexpired]
      exact ⟨_, rfl, h, .refl _ _ _⟩

theorem prune_ok {dict : ExpiringDict κ β} (h : Scheduled size dict.heap dict.buckets)
    (expiredThrough : Int) :
    ∃ pruned, dict.prune expiredThrough = .ok pruned ∧
      Scheduled size pruned.heap pruned.buckets ∧
      Pruned size expiredThrough dict.entries pruned.entries :=
  pruneFrom_ok h

/-- Pruning is invisible at every cutoff that the pruned buckets lie before. -/
theorem Pruned.live_eq (h : Pruned size expiredThrough old new) (hsize : 0 < size) {cutoff : Int}
    (hcutoff : expiredThrough < cutoff / size) (key : κ) :
    live cutoff (KeyedDict.get id key new) = live cutoff (KeyedDict.get id key old) := by
  rcases h.kept key with heq | ⟨hnone, value, hvalue, hexpired⟩
  · rw [heq]
  · rw [hnone, hvalue, live_none, live_some]
    symm
    apply if_neg
    intro hle
    have := Int.ediv_le_ediv hsize hle
    omega

end ExpiringDict

end MiryFormal
