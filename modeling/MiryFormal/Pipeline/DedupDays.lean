import MiryFormal.Pipeline.Deduplicator

/-!
# Deduplication day by day

Each day starts from the checkpoint of the day before. What the days flag, and where they
raise, is what one map that is never pruned flags over all of them.
-/

namespace MiryFormal

set_option autoImplicit false

open ExpiringDict

variable {Identity : Type} [DecidableEq Identity]

/-! ## One map for all days -/

/-- The most recently processed occurrence of every identity. -/
structure UnprunedMap (Identity : Type) where
  last : Identity → Option (Bytes × Int) := fun _ => none
  watermarkNs : Int := 0

def UnprunedMap.observe (identityKey : Identity → String) (map : UnprunedMap Identity)
    (observation : Observation Identity) : Except String (Bool × UnprunedMap Identity) :=
  let watermarkNs := max map.watermarkNs observation.observedNs
  let next : UnprunedMap Identity := {
    last := Function.update map.last observation.identity
      (some (observation.payloadHash, observation.observedNs))
    watermarkNs }
  match live (watermarkNs - dedupWindowNs) (map.last observation.identity) with
  | none => .ok (false, next)
  | some found =>
      if found.1 ≠ observation.payloadHash then
        .error (conflictingPayload (identityKey observation.identity))
      else .ok (true, next)

/-! ## Replays -/

/-- The flags of the observations up to the first that raises, and the state they leave. -/
def replay {σ : Type} (observe : σ → Observation Identity → Except String (Bool × σ)) :
    σ → List (Observation Identity) → List Bool × Except String σ
  | state, [] => ([], .ok state)
  | state, observation :: rest =>
      match observe state observation with
      | .error e => ([], .error e)
      | .ok (duplicate, next) =>
          (duplicate :: (replay observe next rest).1, (replay observe next rest).2)

/-- The flags, and what was raised. -/
def outcome {σ : Type} (result : List Bool × Except String σ) : List Bool × Option String :=
  match result.2 with
  | .error e => (result.1, some e)
  | .ok _ => (result.1, none)

/-- One run of the deduplicator for each day, from the day of `checkpoint` on. -/
def replayDays (identityKey : Identity → String) (checkpoint : Option DedupCheckpoint) :
    Nat → List (List (Observation Identity)) → List Bool × Option String
  | _, [] => ([], none)
  | day, observations :: days =>
      match Deduplicator.load checkpoint with
      | .error e => ([], some e)
      | .ok deduplicator =>
          match replay (Deduplicator.observe identityKey) deduplicator observations with
          | (flags, .error e) => (flags, some e)
          | (flags, .ok finished) =>
              let later := replayDays identityKey
                (some (finished.checkpoint identityKey (dayEndNs day))) (day + 1) days
              (flags ++ later.1, later.2)

/-- The observations of each day are inside it. No event is received before day 0. -/
def InDays : Nat → List (List (Observation Identity)) → Prop
  | _, [] => True
  | day, observations :: days =>
      (∀ observation ∈ observations, utcDateOf observation.observedNs = day) ∧
        InDays (day + 1) days

section Replay
variable {σ : Type} {observe : σ → Observation Identity → Except String (Bool × σ)}
  {state next : σ} {observation : Observation Identity} {first rest : List (Observation Identity)}
  {flags : List Bool} {duplicate : Bool} {e : String}
omit [DecidableEq Identity]

theorem replay_cons_ok (h : observe state observation = .ok (duplicate, next)) :
    replay observe state (observation :: rest) =
      (duplicate :: (replay observe next rest).1, (replay observe next rest).2) := by
  rw [replay, h]

theorem replay_cons_error (h : observe state observation = .error e) :
    replay observe state (observation :: rest) = ([], .error e) := by
  rw [replay, h]

theorem replay_append (h : replay observe state first = (flags, .ok next)) :
    replay observe state (first ++ rest) =
      (flags ++ (replay observe next rest).1, (replay observe next rest).2) := by
  induction first generalizing state flags with
  | nil =>
    cases h
    rfl
  | cons observation first ih =>
    cases hobserve : observe state observation with
    | error e =>
      rw [replay_cons_error hobserve] at h
      cases h
    | ok result =>
      rw [replay_cons_ok hobserve] at h
      obtain ⟨rfl, hrest⟩ := Prod.mk.inj h
      rw [List.cons_append, replay_cons_ok hobserve, ih (Prod.ext rfl hrest)]
      rfl

theorem replay_append_error (h : replay observe state first = (flags, .error e)) :
    replay observe state (first ++ rest) = (flags, .error e) := by
  induction first generalizing state flags with
  | nil => cases h
  | cons observation first ih =>
    rw [List.cons_append]
    cases hobserve : observe state observation with
    | error e' =>
      rw [replay_cons_error hobserve] at h ⊢
      exact h
    | ok result =>
      rw [replay_cons_ok hobserve] at h ⊢
      obtain ⟨rfl, hrest⟩ := Prod.mk.inj h
      rw [ih (Prod.ext rfl hrest)]

end Replay

/-! ## Within a day -/

section Day
variable (identityKey : Identity → String) (identities : Identity → Prop) (day : Nat)

/-- The deduplicator of a day sees what the map sees, at every cutoff that is still to come. -/
structure Mirrors (deduplicator : Deduplicator Identity) (map : UnprunedMap Identity) : Prop where
  ordered : deduplicator.Ordered
  distinct : KeyedDict.Distinct id deduplicator.seen.entries
  named : ∀ entry ∈ deduplicator.seen.entries, identities entry.1
  seen_inside : ∀ entry ∈ deduplicator.seen.entries, entry.2.2 < dayEndNs day
  legacy_before : ∀ entry ∈ deduplicator.legacySeen.entries, entry.2.2 < dayStartNs day
  /-- The day's first observation brings the two watermarks together. -/
  watermark : max deduplicator.watermarkNs (dayStartNs day) = max map.watermarkNs (dayStartNs day)
  watermark_inside : map.watermarkNs < dayEndNs day
  agrees : ∀ identity, identities identity → ∀ cutoffNs,
    max map.watermarkNs (dayStartNs day) - dedupWindowNs ≤ cutoffNs →
      deduplicator.previous identityKey cutoffNs identity = live cutoffNs (map.last identity)

variable {identityKey identities day} {deduplicator : Deduplicator Identity}
  {map : UnprunedMap Identity} {observation : Observation Identity}

/-- What a new occurrence hides: nothing that is carried over outlives it. -/
theorem previous_remember (h : ∀ entry ∈ deduplicator.legacySeen.entries,
      entry.2.2 < observation.observedNs) (cutoffNs : Int) (identity : Identity) :
    (deduplicator.remember observation).previous identityKey cutoffNs identity =
      if observation.identity = identity then
        live cutoffNs (some (observation.payloadHash, observation.observedNs))
      else deduplicator.previous identityKey cutoffNs identity := by
  rw [Deduplicator.previous_eq, Deduplicator.previous_eq]
  unfold Deduplicator.remember
  dsimp only
  rw [get_store]
  split
  · rename_i heq
    rw [live_some]
    split
    · rfl
    · rename_i hexpired
      rw [Option.none_or]
      apply live_of_lt
      intro value hvalue
      obtain ⟨key, hm, -⟩ := KeyedDict.mem_of_get hvalue
      have := h _ hm
      dsimp only at hexpired this
      omega
  · rfl

/-- One observation: both raise, or both flag the same and go on alike. -/
theorem Mirrors.observe (h : Mirrors identityKey identities day deduplicator map)
    (hidentity : identities observation.identity)
    (hday : utcDateOf observation.observedNs = day) :
    (∃ e, deduplicator.observe identityKey observation = .error e ∧
      map.observe identityKey observation = .error e) ∨
    ∃ duplicate deduplicator' map',
      deduplicator.observe identityKey observation = .ok (duplicate, deduplicator') ∧
      map.observe identityKey observation = .ok (duplicate, map') ∧
      Mirrors identityKey identities day deduplicator' map' := by
  obtain ⟨hstart, hend⟩ := utcDateOf_eq_iff.mp hday
  have hwatermark : max deduplicator.watermarkNs observation.observedNs =
      max map.watermarkNs observation.observedNs := by
    have := h.watermark
    omega
  generalize hnow : max map.watermarkNs observation.observedNs = now at hwatermark
  have hlater : max map.watermarkNs (dayStartNs day) ≤ now := by omega
  obtain ⟨pruned, hok, hpruned⟩ := @Deduplicator.pruneIfDue_ok _ _
    { deduplicator with watermarkNs := now } ⟨h.ordered.seen, h.ordered.legacySeen⟩
    (now - dedupWindowNs)
  have hprevious : ∀ cutoffNs, now - dedupWindowNs ≤ cutoffNs → ∀ identity, identities identity →
      pruned.previous identityKey cutoffNs identity = live cutoffNs (map.last identity) := by
    intro cutoffNs hcutoff identity hid
    rw [hpruned.previous_eq identityKey hcutoff]
    exact h.agrees identity hid cutoffNs (by omega)
  have hlegacy : ∀ entry ∈ pruned.legacySeen.entries, entry.2.2 < observation.observedNs := by
    intro entry hm
    exact (h.legacy_before entry (hpruned.legacySeen.sublist.subset hm)).trans_le hstart
  -- Both write the occurrence, whatever they found.
  have hnext : Mirrors identityKey identities day (pruned.remember observation)
      { last := Function.update map.last observation.identity
          (some (observation.payloadHash, observation.observedNs)), watermarkNs := now } := by
    have hentries : ∀ entry ∈ (pruned.remember observation).seen.entries,
        entry ∈ deduplicator.seen.entries ∨
          entry.1 = observation.identity ∧ entry.2.2 = observation.observedNs := by
      intro entry hm
      unfold Deduplicator.remember at hm
      rw [store_entries] at hm
      rcases KeyedDict.mem_set hm with hm | ⟨hkey, hvalue⟩
      · exact .inl (hpruned.seen.sublist.subset hm)
      · exact .inr ⟨hkey, by rw [hvalue]⟩
    constructor
    · exact hpruned.ordered.remember observation
    · unfold Deduplicator.remember
      rw [store_entries]
      exact KeyedDict.distinct_set (h.distinct.sublist (hpruned.seen.sublist.map _)) _ _
    · intro entry hm
      rcases hentries entry hm with hm | ⟨hkey, -⟩
      · exact h.named entry hm
      · rw [hkey]
        exact hidentity
    · intro entry hm
      rcases hentries entry hm with hm | ⟨-, htime⟩
      · exact h.seen_inside entry hm
      · rw [htime]
        exact hend
    · intro entry hm
      exact h.legacy_before entry (hpruned.legacySeen.sublist.subset hm)
    · have hsame : (pruned.remember observation).watermarkNs = now := hpruned.watermarkNs
      rw [hsame]
    · have := h.watermark_inside
      dsimp only
      omega
    · intro identity hid cutoffNs hcutoff
      dsimp only at hcutoff ⊢
      rw [previous_remember hlegacy]
      by_cases heq : observation.identity = identity
      · subst heq
        rw [if_pos rfl, Function.update_self]
      · rw [if_neg heq, Function.update_of_ne (Ne.symm heq)]
        exact hprevious cutoffNs (by omega) identity hid
  have hfound := hprevious (now - dedupWindowNs) le_rfl observation.identity hidentity
  unfold Deduplicator.observe UnprunedMap.observe
  simp only [hwatermark, hnow, hok, bind, Except.bind, hfound]
  cases hlive : live (now - dedupWindowNs) (map.last observation.identity) with
  | none => exact .inr ⟨false, _, _, rfl, rfl, hnext⟩
  | some found =>
    dsimp only
    by_cases hsame : found.1 = observation.payloadHash
    · rw [if_neg (not_not.mpr hsame), if_neg (not_not.mpr hsame)]
      exact .inr ⟨true, _, _, rfl, rfl, hnext⟩
    · rw [if_pos hsame, if_pos hsame]
      exact .inl ⟨_, rfl, rfl⟩

theorem Mirrors.replay {observations : List (Observation Identity)}
    (h : Mirrors identityKey identities day deduplicator map)
    (hidentities : ∀ observation ∈ observations, identities observation.identity)
    (hday : ∀ observation ∈ observations, utcDateOf observation.observedNs = day) :
    (∃ flags e, MiryFormal.replay (Deduplicator.observe identityKey) deduplicator observations =
        (flags, .error e) ∧
      MiryFormal.replay (UnprunedMap.observe identityKey) map observations = (flags, .error e)) ∨
    ∃ flags deduplicator' map',
      MiryFormal.replay (Deduplicator.observe identityKey) deduplicator observations =
        (flags, .ok deduplicator') ∧
      MiryFormal.replay (UnprunedMap.observe identityKey) map observations = (flags, .ok map') ∧
      Mirrors identityKey identities day deduplicator' map' := by
  induction observations generalizing deduplicator map with
  | nil => exact .inr ⟨[], deduplicator, map, rfl, rfl, h⟩
  | cons observation observations ih =>
    have hidentities' := fun o hm => hidentities o (List.mem_cons_of_mem observation hm)
    have hday' := fun o hm => hday o (List.mem_cons_of_mem observation hm)
    rcases h.observe (hidentities _ List.mem_cons_self) (hday _ List.mem_cons_self) with
      ⟨e, hleft, hright⟩ | ⟨duplicate, deduplicator', map', hleft, hright, hnext⟩
    · left
      exact ⟨[], e, replay_cons_error hleft, replay_cons_error hright⟩
    · rw [replay_cons_ok hleft, replay_cons_ok hright]
      rcases ih hnext hidentities' hday' with
        ⟨flags, e, hleft, hright⟩ | ⟨flags, last, lastMap, hleft, hright, hlast⟩
      · left
        exact ⟨duplicate :: flags, e, by rw [hleft], by rw [hright]⟩
      · right
        exact ⟨duplicate :: flags, last, lastMap, by rw [hleft], by rw [hright], hlast⟩

end Day

/-! ## From one day to the next -/

section Checkpoint
variable {identityKey : Identity → String} {identities : Identity → Prop} {cutoffNs : Int}

/-- The hashes tell the observed identities apart. -/
def CollisionFree (identityKey : Identity → String) (identities : Identity → Prop) : Prop :=
  ∀ a b, identities a → identities b → identityKey a = identityKey b → a = b

omit [DecidableEq Identity] in
theorem carryOver_expired {byKey : List (String × (Bytes × Int))}
    {entry : Identity × (Bytes × Int)} (h : entry.2.2 < cutoffNs) :
    Deduplicator.carryOver identityKey cutoffNs byKey entry = byKey :=
  if_pos h

omit [DecidableEq Identity] in
theorem carryOver_new {byKey : List (String × (Bytes × Int))} {entry : Identity × (Bytes × Int)}
    (h : ¬ entry.2.2 < cutoffNs)
    (hnone : KeyedDict.get id (identityKey entry.1) byKey = none) :
    Deduplicator.carryOver identityKey cutoffNs byKey entry =
      KeyedDict.set id (identityKey entry.1) entry.2 byKey := by
  unfold Deduplicator.carryOver
  rw [if_neg h, hnone]

/-- The dictionary of a checkpoint holds, under its hash, what a reader at the cutoff sees. -/
theorem get_foldl_carryOver (hkey : CollisionFree identityKey identities)
    {entries : List (Identity × (Bytes × Int))} (hdistinct : KeyedDict.Distinct id entries)
    (hnamed : ∀ entry ∈ entries, identities entry.1) {byKey : List (String × (Bytes × Int))}
    (hnew : ∀ entry ∈ entries, KeyedDict.get id (identityKey entry.1) byKey = none)
    {identity : Identity} (hidentity : identities identity) :
    KeyedDict.get id (identityKey identity)
        (entries.foldl (Deduplicator.carryOver identityKey cutoffNs) byKey) =
      (live cutoffNs (KeyedDict.get id identity entries)).or
        (KeyedDict.get id (identityKey identity) byKey) := by
  induction entries generalizing byKey with
  | nil => rfl
  | cons entry entries ih =>
    obtain ⟨hfirst, hrest⟩ := List.nodup_cons.mp hdistinct
    have hother : ∀ later ∈ entries, later.1 ≠ entry.1 := by
      intro later hm heq
      exact hfirst (List.mem_map.mpr ⟨later, hm, heq⟩)
    have hnamed' := fun later hm => hnamed later (List.mem_cons_of_mem _ hm)
    have hgone : KeyedDict.get id entry.1 entries = none :=
      KeyedDict.get_eq_none_of_notMem hother
    have hget : KeyedDict.get id identity (entry :: entries) =
        if entry.1 = identity then some entry.2 else KeyedDict.get id identity entries := rfl
    rw [List.foldl_cons, hget]
    by_cases hexpired : entry.2.2 < cutoffNs
    · rw [carryOver_expired hexpired,
        ih hrest hnamed' fun later hm => hnew later (List.mem_cons_of_mem _ hm)]
      split
      · rename_i heq
        rw [← heq, hgone, live_none, live_some, if_neg (by omega)]
      · rfl
    · rw [carryOver_new hexpired (hnew entry List.mem_cons_self), ih hrest hnamed' ?_]
      · rw [KeyedDict.get_set]
        by_cases heq : entry.1 = identity
        · rw [if_pos heq, ← heq, hgone, live_none, Option.none_or, id, if_pos rfl,
            live_some, if_pos (by omega), Option.some_or]
        · have hne : ¬ id (identityKey entry.1) = identityKey identity := fun h =>
            heq (hkey _ _ (hnamed entry List.mem_cons_self) hidentity h)
          rw [if_neg heq, if_neg hne]
      · intro later hm
        have hne : ¬ id (identityKey entry.1) = identityKey later.1 := fun h =>
          hother later hm (hkey _ _ (hnamed entry List.mem_cons_self) (hnamed' later hm) h).symm
        rw [KeyedDict.get_set, if_neg hne]
        exact hnew later (List.mem_cons_of_mem _ hm)

omit [DecidableEq Identity] in
theorem carryOver_cases (identityKey : Identity → String) (cutoffNs : Int)
    (byKey : List (String × (Bytes × Int))) (entry : Identity × (Bytes × Int)) :
    Deduplicator.carryOver identityKey cutoffNs byKey entry = byKey ∨
      Deduplicator.carryOver identityKey cutoffNs byKey entry =
        KeyedDict.set id (identityKey entry.1) entry.2 byKey := by
  unfold Deduplicator.carryOver
  split
  · exact .inl rfl
  · split
    · exact .inr rfl
    · split
      · exact .inr rfl
      · exact .inl rfl

omit [DecidableEq Identity] in
theorem distinct_foldl_carryOver {entries : List (Identity × (Bytes × Int))}
    {byKey : List (String × (Bytes × Int))} (h : KeyedDict.Distinct id byKey) :
    KeyedDict.Distinct id (entries.foldl (Deduplicator.carryOver identityKey cutoffNs) byKey) := by
  induction entries generalizing byKey with
  | nil => exact h
  | cons entry entries ih =>
    apply ih
    rcases carryOver_cases identityKey cutoffNs byKey entry with heq | heq
    · rw [heq]
      exact h
    · rw [heq]
      exact KeyedDict.distinct_set h _ _

omit [DecidableEq Identity] in
theorem mem_foldl_carryOver {entries : List (Identity × (Bytes × Int))}
    {byKey : List (String × (Bytes × Int))} {carried : String × (Bytes × Int)}
    (hm : carried ∈ entries.foldl (Deduplicator.carryOver identityKey cutoffNs) byKey) :
    carried ∈ byKey ∨ ∃ entry ∈ entries, carried.2 = entry.2 := by
  induction entries generalizing byKey with
  | nil => exact .inl hm
  | cons entry entries ih =>
    rcases ih hm with hm | ⟨later, hlater, heq⟩
    · rcases carryOver_cases identityKey cutoffNs byKey entry with heq | heq
      · rw [heq] at hm
        exact .inl hm
      · rw [heq] at hm
        rcases KeyedDict.mem_set hm with hm | ⟨-, hvalue⟩
        · exact .inl hm
        · exact .inr ⟨entry, List.mem_cons_self, hvalue⟩
    · exact .inr ⟨later, List.mem_cons_of_mem _ hlater, heq⟩

omit [DecidableEq Identity] in
theorem loaded_entries {items : List (String × (Bytes × Int))}
    (hdistinct : KeyedDict.Distinct id items) {endNs : Int}
    (hitems : ∀ item ∈ items, item.2.2 < endNs) {deduplicator : Deduplicator Identity}
    (hordered : deduplicator.Ordered) (hwatermark : deduplicator.watermarkNs < endNs)
    (hlegacy : ∀ entry ∈ deduplicator.legacySeen.entries, entry.2.2 < endNs) :
    let loaded := (items.map fun item => (⟨item.1, item.2.1, item.2.2⟩ : DedupEntry)).foldl
      Deduplicator.loadEntry deduplicator
    loaded.Ordered ∧ loaded.seen = deduplicator.seen ∧ loaded.watermarkNs < endNs ∧
      (∀ entry ∈ loaded.legacySeen.entries, entry.2.2 < endNs) ∧
      ∀ key, loaded.legacySeen.get key =
        (KeyedDict.get id key items).or (deduplicator.legacySeen.get key) := by
  induction items generalizing deduplicator with
  | nil => exact ⟨hordered, rfl, hwatermark, hlegacy, fun _ => rfl⟩
  | cons item items ih =>
    obtain ⟨hfirst, hrest⟩ := List.nodup_cons.mp hdistinct
    have hitem := hitems item List.mem_cons_self
    rw [List.map_cons, List.foldl_cons]
    have hscheduled : (Deduplicator.loadEntry deduplicator
        ⟨item.1, item.2.1, item.2.2⟩).Ordered :=
      ⟨hordered.seen, scheduled_store hordered.legacySeen item.1 item.2.1 item.2.2⟩
    have hstored : ∀ entry ∈ (Deduplicator.loadEntry deduplicator
        ⟨item.1, item.2.1, item.2.2⟩).legacySeen.entries, entry.2.2 < endNs := by
      intro entry hm
      unfold Deduplicator.loadEntry at hm
      rw [store_entries] at hm
      rcases KeyedDict.mem_set hm with hm | ⟨-, hvalue⟩
      · exact hlegacy entry hm
      · rw [hvalue]
        exact hitem
    obtain ⟨hordered', hseen, hwatermark', hlegacy', hget⟩ := ih hrest
      (fun later hm => hitems later (List.mem_cons_of_mem _ hm))
      hscheduled (max_lt hwatermark hitem) hstored
    refine ⟨hordered', hseen, hwatermark', hlegacy', ?_⟩
    intro key
    have hstore := @get_store String Bytes _ dedupBucketNs deduplicator.legacySeen item.1 key
      item.2.1 item.2.2
    have hcons : KeyedDict.get id key (item :: items) =
        if item.1 = key then some item.2 else KeyedDict.get id key items := rfl
    rw [hget key, hcons]
    unfold Deduplicator.loadEntry
    rw [hstore]
    split
    · rename_i heq
      have hgone : KeyedDict.get id key items = none := by
        apply KeyedDict.get_eq_none_of_notMem
        intro later hm hlater
        exact hfirst (List.mem_map.mpr ⟨later, hm, hlater.trans heq.symm⟩)
      rw [hgone, Option.none_or, Option.some_or]
    · rfl

variable {day : Nat} {deduplicator : Deduplicator Identity} {map : UnprunedMap Identity}

theorem window_in_day (day : Nat) : dayStartNs day ≤ dayEndNs day - dedupWindowNs ∧
    dayStartNs day ≤ dayEndNs day ∧ 0 < dayEndNs day ∧
    dayEndNs day = dayStartNs ((day + 1 : Nat) : Int) ∧
    dayEndNs day < dayEndNs ((day + 1 : Nat) : Int) := by
  unfold dayEndNs dayStartNs nsPerDay dedupWindowNs
  omega

/-- The checkpoint carries what the day saw in the window before its end, and nothing older. -/
theorem Mirrors.carriedOver (h : Mirrors identityKey identities day deduplicator map)
    (hkey : CollisionFree identityKey identities) {items : List (String × (Bytes × Int))}
    (hitems : deduplicator.carriedOver identityKey (dayEndNs day - dedupWindowNs) = items) :
    KeyedDict.Distinct id items ∧ (∀ item ∈ items, item.2.2 < dayEndNs day) ∧
      ∀ identity, identities identity → KeyedDict.get id (identityKey identity) items =
        live (dayEndNs day - dedupWindowNs) (deduplicator.seen.get identity) := by
  have hcarried : deduplicator.legacySeen.entries.filter
      (fun entry => dayEndNs day - dedupWindowNs ≤ entry.2.2) = [] := by
    apply List.filter_eq_nil_iff.mpr
    intro entry hm hle
    have := h.legacy_before entry hm
    have := of_decide_eq_true hle
    have := window_in_day day
    omega
  unfold Deduplicator.carriedOver at hitems
  rw [hcarried] at hitems
  subst hitems
  refine ⟨distinct_foldl_carryOver List.nodup_nil, ?_, ?_⟩
  · intro item hm
    rcases mem_foldl_carryOver hm with hm | ⟨entry, hentry, heq⟩
    · exact absurd hm List.not_mem_nil
    · rw [heq]
      exact h.seen_inside entry hentry
  · intro identity hid
    rw [get_foldl_carryOver hkey h.distinct h.named (fun _ _ => rfl) hid,
      KeyedDict.get_nil, Option.or_none]
    rfl

theorem Mirrors.next_day (h : Mirrors identityKey identities day deduplicator map)
    (hkey : CollisionFree identityKey identities) :
    ∃ loaded, Deduplicator.load (some (deduplicator.checkpoint identityKey (dayEndNs day))) =
        .ok loaded ∧ Mirrors identityKey identities (day + 1) loaded map := by
  obtain ⟨hwindow, hforward, hpositive, hnext, hlater⟩ := window_in_day day
  generalize hitems : deduplicator.carriedOver identityKey (dayEndNs day - dedupWindowNs) = items
  obtain ⟨hdistinct, hinside, hget⟩ := h.carriedOver hkey hitems
  have hsorted := List.perm_insertionSort (fun a b : String × (Bytes × Int) => a.1 ≤ b.1) items
  have hsortedDistinct :
      KeyedDict.Distinct id (items.insertionSort fun a b => a.1 ≤ b.1) :=
    (hsorted.map _).nodup_iff.mpr hdistinct
  obtain ⟨hordered, hseen, hwatermark, hlegacy, hloaded⟩ :=
    @loaded_entries Identity _ hsortedDistinct (dayEndNs day)
      (fun item hm => hinside item (hsorted.mem_iff.mp hm)) {} Deduplicator.ordered_fresh hpositive
      (fun entry hm => absurd hm List.not_mem_nil)
  generalize hread : ((items.insertionSort fun a b => a.1 ≤ b.1).map fun item =>
      (⟨item.1, item.2.1, item.2.2⟩ : DedupEntry)).foldl Deduplicator.loadEntry
        ({} : Deduplicator Identity) = read at hordered hseen hwatermark hlegacy hloaded
  obtain ⟨loaded, hok, hpruned⟩ :=
    Deduplicator.prune_ok hordered (read.watermarkNs - dedupWindowNs)
  have hempty : loaded.seen.entries = [] := by
    have := hpruned.seen.sublist
    rw [hseen] at this
    exact List.sublist_nil.mp this
  have hreaders : ∀ identity, identities identity → ∀ cutoffNs,
      dayEndNs day - dedupWindowNs ≤ cutoffNs →
        loaded.previous identityKey cutoffNs identity =
          deduplicator.previous identityKey cutoffNs identity := by
    intro identity hid cutoffNs hcutoff
    have hdead : live cutoffNs (deduplicator.legacySeen.get (identityKey identity)) = none := by
      apply live_of_lt
      intro value hvalue
      obtain ⟨key, hm, -⟩ := KeyedDict.mem_of_get hvalue
      have := h.legacy_before _ hm
      dsimp only at this
      omega
    have hnone : read.seen.get identity = none := by
      rw [hseen]
      rfl
    rw [hpruned.previous_eq identityKey (by omega), Deduplicator.previous_eq,
      Deduplicator.previous_eq, hnone, hdead, hloaded, ← KeyedDict.get_perm hsorted.symm hdistinct,
      hget identity hid, Option.or_none, live_none, Option.none_or]
    have hfresh : ({} : Deduplicator Identity).legacySeen.get (identityKey identity) = none := rfl
    rw [hfresh, Option.or_none, live_live hcutoff]
  refine ⟨loaded, ?_, hpruned.ordered, ?_, ?_, ?_, ?_, ?_, ?_, ?_⟩
  · unfold Deduplicator.load Deduplicator.checkpoint
    dsimp only
    rw [if_neg (by simp), hitems, hread]
    exact hok
  · rw [hempty]
    exact List.nodup_nil
  · intro entry hm
    rw [hempty] at hm
    exact absurd hm List.not_mem_nil
  · intro entry hm
    rw [hempty] at hm
    exact absurd hm List.not_mem_nil
  · intro entry hm
    rw [← hnext]
    exact hlegacy entry (hpruned.legacySeen.sublist.subset hm)
  · have := hpruned.watermarkNs
    have := h.watermark_inside
    omega
  · have := h.watermark_inside
    omega
  · intro identity hid cutoffNs hcutoff
    rw [← hnext] at hcutoff
    have := h.watermark_inside
    rw [hreaders identity hid cutoffNs (by omega)]
    apply h.agrees identity hid
    omega

end Checkpoint

/-! ## All days -/

section Days
variable {identityKey : Identity → String} {identities : Identity → Prop}

theorem mirrors_fresh (day : Nat) : Mirrors identityKey identities day {} {} := by
  refine ⟨Deduplicator.ordered_fresh, List.nodup_nil, ?_, ?_, ?_, rfl,
    (window_in_day day).2.2.1, fun _ _ _ _ => rfl⟩
  · intro entry hm
    exact absurd hm List.not_mem_nil
  · intro entry hm
    exact absurd hm List.not_mem_nil
  · intro entry hm
    exact absurd hm List.not_mem_nil

/-- From a checkpoint that mirrors the map, the days do what the map does. -/
theorem replayDays_eq (hkey : CollisionFree identityKey identities)
    {days : List (List (Observation Identity))} {day : Nat} (hdays : InDays day days)
    (hidentities : ∀ observation ∈ days.flatten, identities observation.identity)
    {checkpoint : Option DedupCheckpoint} {deduplicator : Deduplicator Identity}
    {map : UnprunedMap Identity} (hload : Deduplicator.load checkpoint = .ok deduplicator)
    (h : Mirrors identityKey identities day deduplicator map) :
    replayDays identityKey checkpoint day days =
      outcome (replay (UnprunedMap.observe identityKey) map days.flatten) := by
  induction days generalizing day checkpoint deduplicator map with
  | nil => rfl
  | cons observations days ih =>
    rw [List.flatten_cons] at hidentities ⊢
    have htoday := fun o hm => hidentities o (List.mem_append_left _ hm)
    have hlater := fun o hm => hidentities o (List.mem_append_right observations hm)
    rcases h.replay htoday hdays.1 with
      ⟨flags, e, hleft, hright⟩ | ⟨flags, finished, finishedMap, hleft, hright, hfinished⟩
    · rw [replay_append_error hright]
      unfold replayDays
      rw [hload]
      dsimp only
      rw [hleft]
      rfl
    · obtain ⟨loaded, hloaded, hnext⟩ := hfinished.next_day hkey
      rw [replay_append hright]
      unfold replayDays
      rw [hload]
      dsimp only
      rw [hleft]
      dsimp only
      rw [ih hdays.2 hlater hloaded hnext]
      unfold outcome
      dsimp only
      split <;> rfl

/-- Days with checkpoints between them flag and raise like one map that is never pruned. -/
theorem replayDays_eq_unpruned {days : List (List (Observation Identity))} {firstDay : Nat}
    (hdays : InDays firstDay days)
    (hkey : CollisionFree identityKey fun identity =>
      ∃ observation ∈ days.flatten, observation.identity = identity) :
    replayDays identityKey none firstDay days =
      outcome (replay (UnprunedMap.observe identityKey) {} days.flatten) := by
  apply replayDays_eq hkey hdays _ rfl (mirrors_fresh firstDay)
  intro observation hm
  exact ⟨observation, hm, rfl⟩

end Days

/-- A trade that is repeated just after midnight, at the edge of the window. -/
def midnightTrades : List (List (Observation Nat)) :=
  [[⟨7, [1], nsPerDay - 1⟩],
    [⟨7, [1], nsPerDay + 599999999999⟩, ⟨7, [2], nsPerDay + 600000000000⟩]]

theorem midnightTrades_eq_unpruned :
    replayDays toString none 0 midnightTrades =
        outcome (replay (UnprunedMap.observe toString) {} midnightTrades.flatten) ∧
      outcome (replay (UnprunedMap.observe toString) {} midnightTrades.flatten) =
        ([false, true], some (conflictingPayload "7")) :=
  ⟨replayDays_eq_unpruned ⟨by decide, by decide, trivial⟩ (by
      intro a b ha hb _
      simp [midnightTrades] at ha hb
      omega), by decide⟩

end MiryFormal
