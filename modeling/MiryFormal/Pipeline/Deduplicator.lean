import MiryFormal.Contracts.Chunks
import MiryFormal.Contracts.GapEvents
import MiryFormal.Shared.ExpiringDict
import MiryFormal.Shared.Fallible

/-!
# Deduplication

`_Deduplicator` remembers the logical events of the last ten minutes, those of the day under
their identity and those of the day before under the hash of theirs. `Identity` is the tuple
that `_logical_identity` returns and `identityKey` is `_identity_key`. Hashes and times of a
checkpoint are written as they are stored.
-/

namespace MiryFormal

set_option autoImplicit false

open ExpiringDict

def dedupWindowNs : Int := 600 * 1000000000

def dedupBucketNs : Int := 1000000000

structure DedupEntry where
  identityKey : String
  payloadHash : Bytes
  observedNs : Int
  deriving DecidableEq

/-- `_DEDUP_CHECKPOINT.json` -/
structure DedupCheckpoint where
  schemaVersion : Int := 1
  windowNs : Int := dedupWindowNs
  entries : List DedupEntry
  deriving DecidableEq

/-- The arguments of one call of `observe`. -/
structure Observation (Identity : Type) where
  identity : Identity
  payloadHash : Bytes
  observedNs : Int

structure Deduplicator (Identity : Type) where
  seen : ExpiringDict Identity Bytes := {}
  legacySeen : ExpiringDict String Bytes := {}
  prunedThroughBucket : Int := -1
  nextPruneCutoffNs : Int := dedupBucketNs
  watermarkNs : Int := 0

def conflictingPayload (identityKey : String) : String :=
  "conflicting payload for logical event identity " ++ identityKey

namespace Deduplicator

variable {Identity : Type} [DecidableEq Identity] (identityKey : Identity → String)

/-- `_prune` -/
def prune (deduplicator : Deduplicator Identity) (cutoffNs : Int) :
    Except String (Deduplicator Identity) :=
  let expiredThrough := cutoffNs / dedupBucketNs - 1
  if expiredThrough ≤ deduplicator.prunedThroughBucket then .ok deduplicator
  else do
    let seen ← deduplicator.seen.prune expiredThrough
    let legacySeen ← deduplicator.legacySeen.prune expiredThrough
    return { deduplicator with
      seen
      legacySeen
      prunedThroughBucket := expiredThrough
      nextPruneCutoffNs := (expiredThrough + 2) * dedupBucketNs }

/-- Pruning is put off until a whole bucket has expired. -/
def pruneIfDue (deduplicator : Deduplicator Identity) (cutoffNs : Int) :
    Except String (Deduplicator Identity) :=
  if deduplicator.nextPruneCutoffNs ≤ cutoffNs then deduplicator.prune cutoffNs
  else .ok deduplicator

/-- The `previous` of `observe`: today's occurrence, or else one that the checkpoint carried. -/
def previous (deduplicator : Deduplicator Identity) (cutoffNs : Int) (identity : Identity) :
    Option (Bytes × Int) :=
  match live cutoffNs (deduplicator.seen.get identity) with
  | some found => some found
  | none =>
      if deduplicator.legacySeen.entries.isEmpty then none
      else live cutoffNs (deduplicator.legacySeen.get (identityKey identity))

def remember (deduplicator : Deduplicator Identity) (observation : Observation Identity) :
    Deduplicator Identity :=
  { deduplicator with
    seen := deduplicator.seen.store dedupBucketNs observation.identity observation.payloadHash
      observation.observedNs }

def observe (deduplicator : Deduplicator Identity) (observation : Observation Identity) :
    Except String (Bool × Deduplicator Identity) := do
  let watermarkNs := max deduplicator.watermarkNs observation.observedNs
  let cutoffNs := watermarkNs - dedupWindowNs
  let pruned ← pruneIfDue { deduplicator with watermarkNs } cutoffNs
  match pruned.previous identityKey cutoffNs observation.identity with
  | none => return (false, pruned.remember observation)
  | some found =>
      if found.1 ≠ observation.payloadHash then
        .error (conflictingPayload (identityKey observation.identity))
      else return (true, pruned.remember observation)

/-- One entry of `_seen` in the dictionary that `checkpoint` writes. -/
def carryOver (cutoffNs : Int) (byKey : List (String × (Bytes × Int)))
    (entry : Identity × (Bytes × Int)) : List (String × (Bytes × Int)) :=
  if entry.2.2 < cutoffNs then byKey
  else
    match KeyedDict.get id (identityKey entry.1) byKey with
    | none => KeyedDict.set id (identityKey entry.1) entry.2 byKey
    | some existing =>
        if existing.2 ≤ entry.2.2 then KeyedDict.set id (identityKey entry.1) entry.2 byKey
        else byKey

/-- The `by_key` of `checkpoint`. -/
def carriedOver (deduplicator : Deduplicator Identity) (cutoffNs : Int) :
    List (String × (Bytes × Int)) :=
  deduplicator.seen.entries.foldl (carryOver identityKey cutoffNs)
    (deduplicator.legacySeen.entries.filter fun entry => cutoffNs ≤ entry.2.2)

def checkpoint (deduplicator : Deduplicator Identity) (dayEndNs : Int) : DedupCheckpoint where
  entries :=
    ((deduplicator.carriedOver identityKey (dayEndNs - dedupWindowNs)).insertionSort
      fun a b => a.1 ≤ b.1).map fun entry => ⟨entry.1, entry.2.1, entry.2.2⟩

def loadEntry (deduplicator : Deduplicator Identity) (entry : DedupEntry) :
    Deduplicator Identity :=
  { deduplicator with
    legacySeen := deduplicator.legacySeen.store dedupBucketNs entry.identityKey
      entry.payloadHash entry.observedNs
    watermarkNs := max deduplicator.watermarkNs entry.observedNs }

def load : Option DedupCheckpoint → Except String (Deduplicator Identity)
  | none => .ok {}
  | some value =>
      if value.schemaVersion ≠ 1 ∨ value.windowNs ≠ dedupWindowNs then
        .error "incompatible dedup checkpoint"
      else
        let loaded := value.entries.foldl loadEntry {}
        loaded.prune (loaded.watermarkNs - dedupWindowNs)

/-! ## Reading -/

theorem previous_eq (deduplicator : Deduplicator Identity) (cutoffNs : Int)
    (identity : Identity) : deduplicator.previous identityKey cutoffNs identity =
      (live cutoffNs (deduplicator.seen.get identity)).or
        (live cutoffNs (deduplicator.legacySeen.get (identityKey identity))) := by
  unfold previous
  cases live cutoffNs (deduplicator.seen.get identity) with
  | some found => rfl
  | none =>
    rw [Option.none_or]
    cases hempty : deduplicator.legacySeen.entries with
    | nil =>
      unfold ExpiringDict.get
      rw [hempty]
      rfl
    | cons entry entries => rfl

/-- Every bucket is found when it expires. -/
structure Ordered (deduplicator : Deduplicator Identity) : Prop where
  seen : Scheduled dedupBucketNs deduplicator.seen.heap deduplicator.seen.buckets
  legacySeen :
    Scheduled dedupBucketNs deduplicator.legacySeen.heap deduplicator.legacySeen.buckets

omit [DecidableEq Identity] in
theorem ordered_fresh : Ordered ({} : Deduplicator Identity) :=
  ⟨scheduled_empty, scheduled_empty⟩

theorem Ordered.remember {deduplicator : Deduplicator Identity} (h : deduplicator.Ordered)
    (observation : Observation Identity) : (deduplicator.remember observation).Ordered :=
  ⟨scheduled_store h.seen _ _ _, h.legacySeen⟩

/-- What pruning at a cutoff leaves. -/
structure PrunedTo (cutoffNs : Int) (old new : Deduplicator Identity) : Prop where
  ordered : new.Ordered
  watermarkNs : new.watermarkNs = old.watermarkNs
  seen : Pruned dedupBucketNs (cutoffNs / dedupBucketNs - 1) old.seen.entries new.seen.entries
  legacySeen : Pruned dedupBucketNs (cutoffNs / dedupBucketNs - 1) old.legacySeen.entries
    new.legacySeen.entries

variable {deduplicator : Deduplicator Identity}

theorem prune_ok (h : deduplicator.Ordered) (cutoffNs : Int) :
    ∃ pruned, deduplicator.prune cutoffNs = .ok pruned ∧ PrunedTo cutoffNs deduplicator pruned := by
  unfold prune
  dsimp only
  split
  · exact ⟨_, rfl, h, rfl, .refl _ _ _, .refl _ _ _⟩
  · obtain ⟨seen, hseen, hordered, hpruned⟩ :=
      ExpiringDict.prune_ok h.seen (cutoffNs / dedupBucketNs - 1)
    obtain ⟨legacySeen, hlegacySeen, hlegacyOrdered, hlegacyPruned⟩ :=
      ExpiringDict.prune_ok h.legacySeen (cutoffNs / dedupBucketNs - 1)
    rw [hseen, hlegacySeen]
    exact ⟨_, rfl, ⟨hordered, hlegacyOrdered⟩, rfl, hpruned, hlegacyPruned⟩

theorem pruneIfDue_ok (h : deduplicator.Ordered) (cutoffNs : Int) :
    ∃ pruned, deduplicator.pruneIfDue cutoffNs = .ok pruned ∧
      PrunedTo cutoffNs deduplicator pruned := by
  unfold pruneIfDue
  split
  · exact prune_ok h cutoffNs
  · exact ⟨_, rfl, h, rfl, .refl _ _ _, .refl _ _ _⟩

/-- A reader at the cutoff of the pruning, or at a later one, finds what was there. -/
theorem PrunedTo.previous_eq {old new : Deduplicator Identity} {prunedNs cutoffNs : Int}
    (h : PrunedTo prunedNs old new) (hle : prunedNs ≤ cutoffNs) (identity : Identity) :
    new.previous identityKey cutoffNs identity = old.previous identityKey cutoffNs identity := by
  have hsize : 0 < dedupBucketNs := by decide
  have hbucket : prunedNs / dedupBucketNs - 1 < cutoffNs / dedupBucketNs := by
    have := Int.ediv_le_ediv hsize hle
    omega
  rw [Deduplicator.previous_eq, Deduplicator.previous_eq]
  unfold ExpiringDict.get
  rw [h.seen.live_eq hsize hbucket, h.legacySeen.live_eq hsize hbucket]

end Deduplicator

end MiryFormal
