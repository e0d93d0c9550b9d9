import MiryFormal.Universe.SelectionTotal

/-!
# The swaps of a bucket

`_reconcile_bucket` only brings in symbols of the first five that are preferred, and lets go only
of members outside of them. As many are exchanged as there are challengers left in the first five
and members that may go.
-/

namespace MiryFormal

set_option autoImplicit false

/-- The members that stay. -/
def keptMembers (current forbidden inactive : List String) : List String :=
  current.filter fun symbol => symbol ∉ forbidden ∧ symbol ∉ inactive

/-- `preferred`, without repetitions and forbidden symbols. -/
def preferredSymbols (preferred forbidden : List String) : List String :=
  fromKeys (preferred.filter fun symbol => symbol ∉ forbidden)

/-- The members after the vacancies are filled. -/
def filledBucket (current preferred forbidden inactive : List String) : List String :=
  fillBucket (preferredSymbols preferred forbidden) (keptMembers current forbidden inactive)

/-- The dwell test of a member. -/
def memberDwelt (memberSince : List (String × Datetime)) (effectiveAt : Datetime)
    (minimumDwell : Timedelta) (incumbent : String) : Except String Bool :=
  dwellComplete ((KeyedDict.get id incumbent memberSince).getD effectiveAt) effectiveAt
    minimumDwell

/-- A member outside of the leading symbols that has completed its dwell. -/
def removable (dwelt : String → Except String Bool) (leading : List String) (incumbent : String) :
    Bool := incumbent ∉ leading && (dwelt incumbent).toOption = some true

/-! ## Filling -/

theorem fillBucket_leading {preferred result done : List String} {symbol : String}
    (hnodup : (done ++ preferred).Nodup) (hdone : ∀ s ∈ done, s ∈ result)
    (hm : symbol ∈ fillBucket preferred result) :
    symbol ∈ result ∨ symbol ∈ (done ++ preferred).take 5 := by
  induction preferred generalizing done result with
  | nil => exact .inl hm
  | cons first preferred ih =>
    rw [fillBucket] at hm
    rw [List.append_cons] at hnodup
    split at hm
    · exact .inl hm
    · rename_i hroom
      rw [List.append_cons]
      split at hm
      · rename_i hfirst
        apply ih hnodup _ hm
        intro s hs
        cases List.mem_append.mp hs with
        | inl hs => exact hdone s hs
        | inr hs => exact List.mem_singleton.mp hs ▸ hfirst
      · have hall : ∀ s ∈ done ++ [first], s ∈ result ++ [first] := by
          intro s hs
          cases List.mem_append.mp hs with
          | inl hs => exact List.mem_append_left _ (hdone s hs)
          | inr hs => exact List.mem_append_right _ hs
        cases ih hnodup hall hm with
        | inr htake => exact .inr htake
        | inl hs =>
          cases List.mem_append.mp hs with
          | inl hs => exact .inl hs
          | inr hs =>
            -- what was passed before is in the bucket, so there were not five of them
            have hlength : done.length ≤ result.length :=
              length_le_of_subset (hnodup.sublist (by simp)) hdone
            refine .inr (List.mem_take_iff_getElem.mpr ⟨done.length, ?_, ?_⟩)
            · simp only [List.length_append, List.length_cons]
              omega
            · rw [List.mem_singleton.mp hs]
              simp

/-! ## Replacing -/

section Replace
variable {dwelt : String → Except String Bool} {leading : List String} {limit changes : Nat}
variable {preferred result : List String}

/-- At the limit, and without a member that may go, the bucket stays. -/
theorem replaceIncumbents_still (h : limit ≤ changes ∨
    (result.filterM fun incumbent => if incumbent ∈ leading then .ok false else dwelt incumbent) =
      .ok []) :
    replaceIncumbents dwelt leading limit preferred changes result = .ok result := by
  induction preferred with
  | nil => rfl
  | cons symbol preferred ih =>
    rw [replaceIncumbents]
    by_cases hpass : symbol ∈ result ∨ limit ≤ changes
    · rw [if_pos hpass]
      exact ih
    · rw [if_neg hpass]
      have hnone := h.resolve_left (not_or.mp hpass).2
      apply bind_eq hnone
      exact ih

theorem filterM_removable (hdwelt : ∀ symbol, ∃ complete, dwelt symbol = .ok complete)
    (result : List String) :
    (result.filterM fun incumbent => if incumbent ∈ leading then .ok false else dwelt incumbent) =
      .ok (result.filter (removable dwelt leading)) := by
  apply filterM_eq
  intro incumbent _
  unfold removable
  by_cases hm : incumbent ∈ leading
  · simp [hm]
  · obtain ⟨complete, hok⟩ := hdwelt incumbent
    rw [if_neg hm, hok]
    cases complete <;> simp [hm, Except.toOption]

/-- What the challengers of a list do to a bucket. -/
structure Swapped (dwelt : String → Except String Bool) (leading challengers result out :
    List String) (count : Nat) : Prop where
  length : out.length = result.length
  nodup : out.Nodup
  origin : ∀ symbol ∈ out, symbol ∈ result ∨ symbol ∈ challengers
  removed : ∀ symbol ∈ result, symbol ∉ out → removable dwelt leading symbol = true
  swaps : result.countP (fun symbol => symbol ∉ out) = count
  missing : challengers.countP (fun symbol => symbol ∉ out) + count =
    challengers.countP fun symbol => symbol ∉ result
  left : out.countP (removable dwelt leading) + count = result.countP (removable dwelt leading)

theorem countP_not_self (l : List String) : l.countP (fun symbol => symbol ∉ l) = 0 := by
  rw [List.countP_eq_zero]
  intro symbol hm
  simp [hm]

theorem Swapped.refl (hnodup : result.Nodup) (challengers : List String) :
    Swapped dwelt leading challengers result result 0 := by
  constructor
  · rfl
  · exact hnodup
  · exact fun symbol => .inl
  · exact fun symbol hm hnot => absurd hm hnot
  · exact countP_not_self result
  · rfl
  · rfl

theorem Swapped.keeps {challengers out : List String} {count : Nat}
    (h : Swapped dwelt leading challengers result out count) {symbol : String}
    (hm : symbol ∈ result) (hlead : symbol ∈ leading) : symbol ∈ out := by
  by_contra hnot
  have hremoved := h.removed symbol hm hnot
  simp [removable, hlead] at hremoved

theorem Swapped.skip {symbol : String} {challengers out : List String} {count : Nat}
    (h : Swapped dwelt leading challengers result out count) (hm : symbol ∈ result)
    (hlead : symbol ∈ leading) :
    Swapped dwelt leading (symbol :: challengers) result out count := by
  have hkept := h.keeps hm hlead
  constructor
  · exact h.length
  · exact h.nodup
  · exact fun s hs => (h.origin s hs).imp_right (List.mem_cons_of_mem _)
  · exact h.removed
  · exact h.swaps
  · rw [List.countP_cons_of_neg (by simpa using hkept),
      List.countP_cons_of_neg (by simpa using hm)]
    exact h.missing
  · exact h.left

/-- A challenger takes the place of a member that may go. -/
theorem Swapped.swap {symbol last : String} {challengers out : List String} {count : Nat}
    (h : Swapped dwelt leading challengers (result.erase last ++ [symbol]) out count)
    (hnodup : result.Nodup) (hchallengers : (symbol :: challengers).Nodup)
    (hlead : ∀ s ∈ symbol :: challengers, s ∈ leading) (hm : symbol ∉ result)
    (hlast : last ∈ result) (hgoes : removable dwelt leading last = true) :
    Swapped dwelt leading (symbol :: challengers) result out (count + 1) := by
  have hnotLead : last ∉ leading := by
    simp only [removable, Bool.and_eq_true, decide_eq_true_eq] at hgoes
    exact hgoes.1
  have hstays : removable dwelt leading symbol = false := by
    simp [removable, hlead symbol List.mem_cons_self]
  have hin : symbol ∈ out := h.keeps (by simp) (hlead symbol List.mem_cons_self)
  have hgone : last ∉ out := by
    intro hout
    cases h.origin last hout with
    | inl hold =>
      cases List.mem_append.mp hold with
      | inl hold => exact (hnodup.mem_erase_iff.mp hold).1 rfl
      | inr hold => exact hm (List.mem_singleton.mp hold ▸ hlast)
    | inr hold => exact hnotLead (hlead last (List.mem_cons_of_mem _ hold))
  have hperm : result.Perm (last :: result.erase last) := List.perm_cons_erase hlast
  constructor
  · rw [h.length, List.length_append, List.length_erase_of_mem hlast, List.length_singleton]
    have := List.length_pos_of_mem hlast
    omega
  · exact h.nodup
  · intro s hs
    cases h.origin s hs with
    | inl hold =>
      cases List.mem_append.mp hold with
      | inl hold => exact .inl (List.mem_of_mem_erase hold)
      | inr hold => exact .inr (List.mem_singleton.mp hold ▸ List.mem_cons_self)
    | inr hold => exact .inr (List.mem_cons_of_mem _ hold)
  · intro s hs hnot
    by_cases heq : s = last
    · rw [heq]
      exact hgoes
    · apply h.removed s _ hnot
      exact List.mem_append_left _ ((List.mem_erase_of_ne heq).mpr hs)
  · have hswaps := h.swaps
    rw [List.countP_append, List.countP_singleton] at hswaps
    rw [hperm.countP_eq, List.countP_cons_of_pos (by simpa using hgone)]
    simp only [hin, not_true_eq_false, decide_false, Bool.false_eq_true, if_false] at hswaps
    omega
  · obtain ⟨hfirst, -⟩ := List.nodup_cons.mp hchallengers
    have hsame : challengers.countP (fun s => s ∉ result.erase last ++ [symbol]) =
        challengers.countP fun s => s ∉ result := by
      apply List.countP_congr
      intro s hs
      have hne : s ≠ symbol := fun heq => hfirst (heq ▸ hs)
      have hother : s ≠ last := fun heq =>
        hnotLead (heq ▸ hlead s (List.mem_cons_of_mem _ hs))
      simp [List.mem_erase_of_ne hother, hne]
    have hmissing := h.missing
    rw [hsame] at hmissing
    rw [List.countP_cons_of_neg (by simpa using hin), List.countP_cons_of_pos (by simpa using hm)]
    omega
  · have hleft := h.left
    rw [List.countP_append, List.countP_singleton, hstays] at hleft
    rw [hperm.countP_eq, List.countP_cons_of_pos hgoes]
    simp only [Bool.false_eq_true, if_false] at hleft
    omega

theorem replaceIncumbents_leading (hdwelt : ∀ symbol, ∃ complete, dwelt symbol = .ok complete)
    (challengers : List String) (hchallengers : challengers.Nodup)
    (hlead : ∀ s ∈ challengers, s ∈ leading) (hnodup : result.Nodup) (rest : List String) :
    ∃ out count, replaceIncumbents dwelt leading limit (challengers ++ rest) changes result =
        replaceIncumbents dwelt leading limit rest (changes + count) out ∧
      Swapped dwelt leading challengers result out count ∧
      count = min (limit - changes) (min (challengers.countP fun s => s ∉ result)
        (result.countP (removable dwelt leading))) := by
  induction challengers generalizing result changes with
  | nil => exact ⟨result, 0, rfl, .refl hnodup _, by simp⟩
  | cons symbol challengers ih =>
    obtain ⟨hfirst, hrest⟩ := List.nodup_cons.mp hchallengers
    have hsymbol := hlead symbol List.mem_cons_self
    have hlater : ∀ s ∈ challengers, s ∈ leading :=
      fun s hs => hlead s (List.mem_cons_of_mem _ hs)
    by_cases hm : symbol ∈ result
    · obtain ⟨out, count, hrun, hswapped, hcount⟩ := @ih changes result hrest hlater hnodup
      refine ⟨out, count, ?_, hswapped.skip hm hsymbol, ?_⟩
      · rw [List.cons_append, replaceIncumbents, if_pos (.inl hm)]
        exact hrun
      · rw [List.countP_cons_of_neg (by simpa using hm)]
        exact hcount
    · have hstill : limit ≤ changes ∨ result.filter (removable dwelt leading) = [] →
          ∃ out count,
            replaceIncumbents dwelt leading limit (symbol :: challengers ++ rest) changes result =
              replaceIncumbents dwelt leading limit rest (changes + count) out ∧
            Swapped dwelt leading (symbol :: challengers) result out count ∧
            count = min (limit - changes) (min ((symbol :: challengers).countP fun s => s ∉ result)
              (result.countP (removable dwelt leading))) := by
        intro hno
        have hstop : limit ≤ changes ∨ (result.filterM fun incumbent =>
            if incumbent ∈ leading then .ok false else dwelt incumbent) = .ok [] := by
          rw [filterM_removable hdwelt]
          exact hno.imp_right fun hnil => by rw [hnil]
        refine ⟨result, 0, ?_, .refl hnodup _, ?_⟩
        · rw [Nat.add_zero, replaceIncumbents_still hstop, replaceIncumbents_still hstop]
        · cases hno with
          | inl hlimit => omega
          | inr hnil =>
            rw [List.countP_eq_length_filter (l := result), hnil, List.length_nil]
            omega
      by_cases hlimit : limit ≤ changes
      · exact hstill (.inl hlimit)
      · cases hlast : (result.filter (removable dwelt leading)).getLast? with
        | none => exact hstill (.inr (List.getLast?_eq_none_iff.mp hlast))
        | some last =>
          obtain ⟨hmem, hgoes⟩ := List.mem_filter.mp (List.mem_of_getLast? hlast)
          have hnew : symbol ∉ result.erase last := fun h => hm (List.mem_of_mem_erase h)
          obtain ⟨out, count, hrun, hswapped, hcount⟩ := @ih (changes + 1)
            (result.erase last ++ [symbol]) hrest hlater
            (nodup_snoc (hnodup.erase last) hnew)
          have hall := hswapped.swap hnodup hchallengers hlead hm hmem hgoes
          refine ⟨out, count + 1, ?_, hall, ?_⟩
          · rw [List.cons_append, replaceIncumbents, if_neg (not_or.mpr ⟨hm, hlimit⟩)]
            apply bind_eq (filterM_removable hdwelt result)
            rw [hlast]
            dsimp only
            rw [hrun, Nat.add_assoc, Nat.add_comm 1 count]
          · have hin : symbol ∈ out := hswapped.keeps (by simp) hsymbol
            have hmissing := hall.missing
            rw [List.countP_cons_of_neg (by simpa using hin)] at hmissing
            have hleft := hall.left
            have hbefore := hswapped.missing
            have hgoing := hswapped.left
            omega

theorem replaceIncumbents_swapped (hdwelt : ∀ symbol, ∃ complete, dwelt symbol = .ok complete)
    (hlead : leading.Nodup) (hnodup : result.Nodup) (hsize : result.length = leading.length)
    (rest : List String) :
    ∃ out count, replaceIncumbents dwelt leading limit (leading ++ rest) 0 result = .ok out ∧
      Swapped dwelt leading leading result out count ∧
      count = min limit (min (leading.countP fun s => s ∉ result)
        (result.countP (removable dwelt leading))) := by
  obtain ⟨out, count, hrun, hswapped, hcount⟩ := @replaceIncumbents_leading dwelt leading
    limit 0 result hdwelt leading hlead (fun _ hm => hm) hnodup rest
  refine ⟨out, count, ?_, hswapped, by rwa [Nat.sub_zero] at hcount⟩
  rw [hrun]
  apply replaceIncumbents_still
  rw [filterM_removable hdwelt]
  by_cases hlimit : limit ≤ 0 + count
  · exact .inl hlimit
  · refine .inr (congrArg Except.ok ?_)
    rw [List.filter_eq_nil_iff, ← List.countP_eq_zero]
    by_cases hnone : out.countP (removable dwelt leading) = 0
    · exact hnone
    · -- the leading symbols are all in, and there is no room for another one
      have hall : leading.countP (fun s => s ∉ out) = 0 := by
        have hmissing := hswapped.missing
        have hleft := hswapped.left
        omega
      have hsub : ∀ s ∈ leading, s ∈ out := by
        intro s hs
        have := List.countP_eq_zero.mp hall s hs
        simpa using this
      have hperm : leading.Perm out := by
        apply (List.subperm_of_subset hlead hsub).perm_of_length_le
        rw [hswapped.length, hsize]
      rw [List.countP_eq_zero]
      intro s hs
      have hin := hperm.mem_iff.mpr hs
      simp [removable, hin]

end Replace

section Reconcile
variable {current preferred forbidden inactive : List String}

theorem mem_keptMembers {symbol : String} : symbol ∈ keptMembers current forbidden inactive ↔
    symbol ∈ current ∧ symbol ∉ forbidden ∧ symbol ∉ inactive := by
  unfold keptMembers
  rw [List.mem_filter, decide_eq_true_eq]

theorem mem_preferredSymbols {symbol : String} : symbol ∈ preferredSymbols preferred forbidden ↔
    symbol ∈ preferred ∧ symbol ∉ forbidden := by
  unfold preferredSymbols
  rw [mem_fromKeys, List.mem_filter, decide_eq_true_eq]

theorem nodup_filledBucket (hcurrent : current.Nodup) :
    (filledBucket current preferred forbidden inactive).Nodup :=
  nodup_fillBucket (hcurrent.filter _)

theorem length_filledBucket (hsize : current.length = 5)
    (henough : 5 ≤ (preferredSymbols preferred forbidden).length) :
    (filledBucket current preferred forbidden inactive).length = 5 := by
  have hpreferred := nodup_fromKeys (preferred.filter fun symbol => symbol ∉ forbidden)
  have hkept : (keptMembers current forbidden inactive).length ≤ 5 :=
    hsize ▸ List.length_filter_le _ _
  apply length_fillBucket hpreferred hkept
  have hin : ((preferredSymbols preferred forbidden).filter fun symbol =>
      symbol ∈ keptMembers current forbidden inactive).length ≤
        (keptMembers current forbidden inactive).length :=
    length_le_of_subset (hpreferred.filter _) fun symbol hm =>
      of_decide_eq_true (List.mem_filter.mp hm).2
  have hsplit := List.length_eq_length_filter_add (l := preferredSymbols preferred forbidden)
    fun symbol => symbol ∈ keptMembers current forbidden inactive
  simp only [← decide_not] at hsplit
  have hfold : fromKeys (preferred.filter fun symbol => symbol ∉ forbidden) =
    preferredSymbols preferred forbidden := rfl
  rw [hfold]
  omega

/-- With nothing to swap the members are not even asked for their dwell. -/
theorem replaceIncumbents_idle {dwelt : String → Except String Bool} {leading result : List String}
    (hlead : leading.Nodup) (hsize : result.length = leading.length) {limit : Nat}
    (hidle : limit = 0 ∨ ∀ symbol ∈ leading, symbol ∈ result) (preferred : List String) :
    replaceIncumbents dwelt leading limit preferred 0 result = .ok result := by
  apply replaceIncumbents_still
  cases hidle with
  | inl hzero => exact .inl (Nat.le_of_eq hzero)
  | inr hall =>
    have hperm : leading.Perm result :=
      (List.subperm_of_subset hlead hall).perm_of_length_le (Nat.le_of_eq hsize)
    have hnone : (result.filterM fun incumbent =>
        if incumbent ∈ leading then .ok false else dwelt incumbent) =
          .ok (result.filter fun _ => false) := by
      apply filterM_eq
      intro incumbent hm
      rw [if_pos (hperm.mem_iff.mpr hm)]
    rw [hnone, List.filter_false]
    exact .inr rfl

variable (memberSince : List (String × Datetime)) (effectiveAt : Datetime)
  (minimumDwell : Timedelta) (limit : Nat)

theorem replaceIncumbents_filled {leading filled : List String} (hlead : leading.Nodup)
    (hnodup : filled.Nodup) (hsize : filled.length = leading.length) (rest : List String)
    (hdwell : 0 < limit → (∃ symbol ∈ leading, symbol ∉ filled) →
      minimumDwell.micros ≤ effectiveAt.micros) :
    ∃ out count, replaceIncumbents (memberDwelt memberSince effectiveAt minimumDwell) leading limit
        (leading ++ rest) 0 filled = .ok out ∧
      Swapped (memberDwelt memberSince effectiveAt minimumDwell) leading leading filled out count ∧
      count = min limit (min (leading.countP fun s => s ∉ filled)
        (filled.countP (removable (memberDwelt memberSince effectiveAt minimumDwell) leading))) := by
  by_cases hidle : limit = 0 ∨ ∀ symbol ∈ leading, symbol ∈ filled
  · refine ⟨filled, 0, replaceIncumbents_idle hlead hsize hidle _, .refl hnodup leading, ?_⟩
    cases hidle with
    | inl hzero => omega
    | inr hall =>
      have hnone : leading.countP (fun s => s ∉ filled) = 0 := by
        rw [List.countP_eq_zero]
        intro symbol hm
        simpa using hall symbol hm
      omega
  · obtain ⟨hlimit, hmissing⟩ := not_or.mp hidle
    have hreach : minimumDwell.micros ≤ effectiveAt.micros := by
      apply hdwell (Nat.pos_of_ne_zero hlimit)
      by_contra hnone
      apply hmissing
      intro symbol hm
      by_contra hnot
      exact hnone ⟨symbol, hm, hnot⟩
    exact replaceIncumbents_swapped (fun _ => dwellComplete_ok hreach) hlead hnodup hsize rest

theorem reconcileBucket_improves (current preferred forbidden inactive : List String)
    (hcurrent : current.Nodup) (hsize : current.length = 5)
    (hpreferred : ∀ symbol ∈ preferred, symbol ∉ inactive)
    (henough : 5 ≤ (preferredSymbols preferred forbidden).length)
    (hdwell : 0 < limit → (∃ symbol ∈ (preferredSymbols preferred forbidden).take 5,
        symbol ∉ filledBucket current preferred forbidden inactive) →
      minimumDwell.micros ≤ effectiveAt.micros) :
    ∃ bucket, reconcileBucket current preferred forbidden inactive memberSince effectiveAt
        minimumDwell limit = .ok bucket ∧
      bucket.length = 5 ∧ bucket.Nodup ∧
      (∀ symbol ∈ bucket, symbol ∉ forbidden ∧ symbol ∉ inactive) ∧
      (∀ symbol ∈ filledBucket current preferred forbidden inactive,
        symbol ∉ keptMembers current forbidden inactive →
          symbol ∈ (preferredSymbols preferred forbidden).take 5) ∧
      (∀ symbol ∈ bucket, symbol ∉ filledBucket current preferred forbidden inactive →
        symbol ∈ (preferredSymbols preferred forbidden).take 5) ∧
      (∀ symbol ∈ filledBucket current preferred forbidden inactive, symbol ∉ bucket →
        symbol ∉ (preferredSymbols preferred forbidden).take 5 ∧
          memberDwelt memberSince effectiveAt minimumDwell symbol = .ok true) ∧
      (filledBucket current preferred forbidden inactive).countP (fun symbol => symbol ∉ bucket) =
        min limit (min
          (((preferredSymbols preferred forbidden).take 5).countP fun symbol =>
            symbol ∉ filledBucket current preferred forbidden inactive)
          ((filledBucket current preferred forbidden inactive).countP
            (removable (memberDwelt memberSince effectiveAt minimumDwell)
              ((preferredSymbols preferred forbidden).take 5)))) := by
  have hkeys : (preferredSymbols preferred forbidden).Nodup := nodup_fromKeys _
  have hnodup := @nodup_filledBucket current preferred forbidden inactive hcurrent
  have hfilled := @length_filledBucket current preferred forbidden inactive hsize henough
  have hleading : ((preferredSymbols preferred forbidden).take 5).length = 5 :=
    List.length_take_of_le henough
  have hvacancies : ∀ symbol ∈ filledBucket current preferred forbidden inactive,
      symbol ∉ keptMembers current forbidden inactive →
        symbol ∈ (preferredSymbols preferred forbidden).take 5 := by
    intro symbol hm hnew
    have hor := @fillBucket_leading _ _ [] _ hkeys (fun _ h => absurd h List.not_mem_nil) hm
    exact hor.resolve_left hnew
  obtain ⟨out, count, hok, hswapped, hcount⟩ := replaceIncumbents_filled memberSince effectiveAt
    minimumDwell limit (hkeys.sublist (List.take_sublist _ _)) hnodup (hfilled.trans hleading.symm)
    ((preferredSymbols preferred forbidden).drop 5) hdwell
  rw [List.take_append_drop] at hok
  have hlength : out.length = 5 := hswapped.length.trans hfilled
  have hallowed : ∀ symbol ∈ out, symbol ∉ forbidden ∧ symbol ∉ inactive := by
    have hpick : ∀ symbol ∈ (preferredSymbols preferred forbidden).take 5,
        symbol ∉ forbidden ∧ symbol ∉ inactive := by
      intro symbol hm
      obtain ⟨hin, hfree⟩ := mem_preferredSymbols.mp (List.mem_of_mem_take hm)
      exact ⟨hfree, hpreferred symbol hin⟩
    intro symbol hm
    cases hswapped.origin symbol hm with
    | inr hlead => exact hpick symbol hlead
    | inl hin =>
      by_cases hkept : symbol ∈ keptMembers current forbidden inactive
      · exact (mem_keptMembers.mp hkept).2
      · exact hpick symbol (hvacancies symbol hin hkept)
  have hlimit : ¬ ((5 - (keptMembers current forbidden inactive).length : Int) = 0 ∧
      limit < (current.toFinset \ out.toFinset).card) := by
    intro ⟨hfull, hmany⟩
    -- Without a forced vacancy the bucket starts as it was.
    have hsame : filledBucket current preferred forbidden inactive = current := by
      have hsub : (keptMembers current forbidden inactive).Sublist current := List.filter_sublist
      have hkept : keptMembers current forbidden inactive = current :=
        hsub.eq_of_length (by omega)
      unfold filledBucket
      rw [fillBucket_full (by omega), hkept]
    have hcard : (current.toFinset \ out.toFinset).card = count := by
      rw [← hswapped.swaps, hsame, List.countP_eq_length_filter,
        ← List.toFinset_card_of_nodup (hcurrent.filter _)]
      congr 1
      ext symbol
      simp
    omega
  have hsorted : ∀ symbol, symbol ∈ sortedSymbols out ↔ symbol ∈ out :=
    fun _ => mem_sortedSymbols
  have hbucket : reconcileBucket current preferred forbidden inactive memberSince effectiveAt
      minimumDwell limit = .ok (sortedSymbols out) := by
    unfold reconcileBucket
    apply bind_eq hok
    rw [if_neg (not_not.mpr hlength)]
    exact if_neg hlimit
  refine ⟨sortedSymbols out, hbucket, ?_, nodup_sortedSymbols hswapped.nodup, ?_, hvacancies, ?_,
    ?_, ?_⟩
  · rw [length_sortedSymbols, hlength]
  · intro symbol hm
    exact hallowed symbol ((hsorted symbol).mp hm)
  · intro symbol hm hnew
    exact (hswapped.origin symbol ((hsorted symbol).mp hm)).resolve_left hnew
  · intro symbol hm hgone
    have hgoes := hswapped.removed symbol hm fun hout => hgone ((hsorted symbol).mpr hout)
    simp only [removable, Bool.and_eq_true, decide_eq_true_eq] at hgoes
    refine ⟨hgoes.1, ?_⟩
    cases hdwelt : memberDwelt memberSince effectiveAt minimumDwell symbol with
    | error _ => simp [hdwelt, Except.toOption] at hgoes
    | ok complete => simpa [hdwelt, Except.toOption] using hgoes.2
  · simp only [hsorted]
    rw [hswapped.swaps, hcount]

end Reconcile

/-- Members that are asked for a dwell that reaches back before year 1. -/
theorem reconcileBucket_longDwell :
    reconcileBucket ["A", "B", "C", "D", "E"] ["V", "W", "X", "Y", "Z"] [] [] [] sampleMidnight
      ⟨999999999 * 86400000000, by decide⟩ 1 = .error "OverflowError: date value out of range" := by
  rfl

/-- A vacancy is filled, and a member that has dwelt is replaced. -/
theorem reconcileBucket_improves_one : ∃ bucket,
    reconcileBucket ["A", "B", "C", "D", "E"] ["V", "W", "X", "Y", "Z"] [] ["A"]
      [("B", sampleMidnight), ("C", ⟨0, by decide⟩), ("D", ⟨0, by decide⟩), ("E", sampleMidnight)]
      sampleMidnight ⟨172800000000, by decide⟩ 1 = .ok bucket ∧ bucket.length = 5 ∧ bucket.Nodup ∧
      bucket = ["B", "C", "E", "V", "W"] := by
  obtain ⟨bucket, hok, hlength, hnodup, -⟩ := reconcileBucket_improves
    [("B", sampleMidnight), ("C", ⟨0, by decide⟩), ("D", ⟨0, by decide⟩), ("E", sampleMidnight)]
    sampleMidnight ⟨172800000000, by decide⟩ 1 ["A", "B", "C", "D", "E"] ["V", "W", "X", "Y", "Z"] []
    ["A"] (by decide) rfl (by decide) (by decide) (fun _ _ => by decide)
  exact ⟨bucket, hok, hlength, hnodup, (Except.ok.inj (hok.symm.trans rfl))⟩

end MiryFormal
