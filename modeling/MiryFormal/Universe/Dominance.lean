import MiryFormal.Universe.DecimalContext
import MiryFormal.Universe.Ranking

/-!
# Order and dominance

The rank of a row under a metric is one more than the number of rows that are better. So
`rank_cross_section` does not see the order in which the rows are listed, and a row that is
nowhere worse than another and somewhere better comes first. A metric whose larger values are
better is sorted by `-value`, which the decimal context rounds: dominance needs that the context
keeps the values apart.
-/

namespace MiryFormal

set_option autoImplicit false

variable {Row Value : Type} [LinearOrder Value]

/-! ## Ranks -/

/-- `x` is better than `y` under a metric. -/
def Better (descending : Bool) (x y : Value) : Prop :=
  if descending then y < x else x < y

instance (descending : Bool) (x y : Value) : Decidable (Better descending x y) :=
  inferInstanceAs (Decidable (ite _ _ _))

variable {descending : Bool} {x y z : Value}

theorem Better.irrefl : ¬ Better descending x x := by
  cases descending <;> exact lt_irrefl x

theorem Better.asymm (h : Better descending x y) : ¬ Better descending y x := by
  cases descending <;> exact lt_asymm h

theorem Better.of_ne (hne : x ≠ y) (h : ¬ Better descending y x) : Better descending x y := by
  cases descending with
  | true => exact lt_of_le_of_ne (not_lt.mp h) hne.symm
  | false => exact lt_of_le_of_ne (not_lt.mp h) hne

theorem Better.of_not (h : Better descending x y) (hnot : ¬ Better descending z y) :
    Better descending x z := by
  cases descending with
  | true => exact lt_of_le_of_lt (not_lt.mp hnot) h
  | false => exact lt_of_lt_of_le h (not_lt.mp hnot)

theorem eq_of_not_better (hxy : ¬ Better descending x y) (hyx : ¬ Better descending y x) :
    x = y := by
  by_contra hne
  exact hxy (.of_ne hne hyx)

theorem not_better_last {items : List (String × Value)} {last : String × Value}
    (hsorted : items.Pairwise fun a b => ¬ Better descending b.2 a.2)
    (hlast : items.getLast? = some last) {item : String × Value} (hm : item ∈ items) :
    ¬ Better descending last.2 item.2 := by
  obtain ⟨front, rfl⟩ := List.getLast?_eq_some_iff.mp hlast
  cases List.mem_append.mp hm with
  | inl hfront =>
    exact (List.pairwise_append.mp hsorted).2.2 item hfront last (List.mem_singleton_self last)
  | inr hsame =>
    rw [List.mem_singleton.mp hsame]
    exact Better.irrefl

/-- Among items from the best to the worst, the position of the first of the same value counts
those that are better. -/
theorem assignRanks_sorted (done rest : List (String × Value)) (rank : Nat)
    (hsorted : (done ++ rest).Pairwise fun a b => ¬ Better descending b.2 a.2)
    (hrank : ∀ last ∈ done.getLast?,
      rank = 1 + (done ++ rest).countP fun other => Better descending other.2 last.2) :
    assignRanks rest (done.length + 1) (done.getLast?.map Prod.snd) rank = rest.map fun item =>
      (item.1, 1 + (done ++ rest).countP fun other => Better descending other.2 item.2) := by
  induction rest generalizing done rank with
  | nil => rfl
  | cons item rest ih =>
    obtain ⟨hdone, hrest, hcross⟩ := List.pairwise_append.mp hsorted
    have hhead : (if done.getLast?.map Prod.snd = some item.2 then rank else done.length + 1) =
        1 + (done ++ item :: rest).countP fun other => Better descending other.2 item.2 := by
      split
      · rename_i hsame
        obtain ⟨last, hlast, hvalue⟩ := Option.map_eq_some_iff.mp hsame
        rw [hrank last hlast, hvalue]
      · rename_i hother
        have hbefore : ∀ other ∈ done, Better descending other.2 item.2 := by
          intro other hm
          apply Better.of_ne _ (hcross other hm item List.mem_cons_self)
          intro hvalue
          have hlast := List.getLast?_eq_some_getLast (List.ne_nil_of_mem hm)
          have hlower := not_better_last hdone hlast hm
          have hupper := hcross _ (List.mem_of_getLast? hlast) item List.mem_cons_self
          rw [hvalue] at hlower
          apply hother
          rw [hlast, Option.map_some, eq_of_not_better hlower hupper]
        have hafter : ∀ other ∈ item :: rest, ¬ Better descending other.2 item.2 := by
          intro other hm
          cases List.mem_cons.mp hm with
          | inl hsame =>
            rw [hsame]
            exact Better.irrefl
          | inr hm => exact (List.pairwise_cons.mp hrest).1 other hm
        rw [List.countP_append, List.countP_eq_length.mpr (by simpa using hbefore),
          List.countP_eq_zero.mpr (by simpa using hafter)]
        omega
    have hlater := ih (done ++ [item])
      (1 + (done ++ item :: rest).countP fun other => Better descending other.2 item.2)
      (List.append_cons .. ▸ hsorted) (by
        intro last hlast
        rw [List.getLast?_concat, Option.mem_some_iff] at hlast
        rw [← List.append_cons, ← hlast])
    rw [List.getLast?_concat, Option.map_some, List.length_append, List.length_singleton,
      ← List.append_cons] at hlater
    rw [assignRanks, List.map_cons, hhead, hlater]

/-! ## The sort of a metric -/

theorem metricBefore_iff {a b : Value × String × Value} : MetricBefore descending a b ↔
    Better descending a.1 b.1 ∨ a.1 = b.1 ∧ a.2.1 ≤ b.2.1 := by
  unfold MetricBefore
  by_cases hsame : a.1 = b.1
  · rw [if_pos hsame, hsame]
    exact ⟨fun h => .inr ⟨rfl, h⟩, fun h => (h.resolve_left Better.irrefl).2⟩
  · rw [if_neg hsame]
    cases descending with
    | true =>
      exact ⟨fun h => .inl (lt_of_le_of_ne h (Ne.symm hsame)),
        fun h => (h.resolve_right fun hboth => hsame hboth.1).le⟩
    | false =>
      exact ⟨fun h => .inl (lt_of_le_of_ne h hsame),
        fun h => (h.resolve_right fun hboth => hsame hboth.1).le⟩

instance : Std.Total (@MetricBefore Value _ descending) where
  total a b := by
    rw [metricBefore_iff, metricBefore_iff]
    by_cases hsame : a.1 = b.1
    · cases le_total a.2.1 b.2.1 with
      | inl hle => exact .inl (.inr ⟨hsame, hle⟩)
      | inr hge => exact .inr (.inr ⟨hsame.symm, hge⟩)
    · by_cases hbetter : Better descending a.1 b.1
      · exact .inl (.inl hbetter)
      · exact .inr (.inl (.of_ne (Ne.symm hsame) hbetter))

instance : IsTrans (Value × String × Value) (MetricBefore descending) where
  trans a b c hab hbc := by
    rw [metricBefore_iff] at hab hbc ⊢
    cases hab with
    | inl hab =>
      cases hbc with
      | inl hbc =>
        exact .inl (hab.of_not hbc.asymm)
      | inr hbc => exact .inl (hbc.1 ▸ hab)
    | inr hab =>
      rw [hab.1]
      cases hbc with
      | inl hbc => exact .inl hbc
      | inr hbc => exact .inr ⟨hbc.1, hab.2.trans hbc.2⟩

variable {rounded : Value → Except String Value} {values : List (String × Value)}
variable {keyed : List (Value × String × Value)}

/-- Two keys of one list are in no other order than one. -/
theorem eq_of_metricBefore (hkeyed : values.mapM (metricKey rounded descending) = .ok keyed)
    (hnodup : (values.map Prod.fst).Nodup) {a b : Value × String × Value} (ha : a ∈ keyed)
    (hb : b ∈ keyed) (hab : MetricBefore descending a b) (hba : MetricBefore descending b a) :
    a = b := by
  rw [metricBefore_iff] at hab hba
  have hsymbol : a.2.1 = b.2.1 := by
    cases hab with
    | inl hbetter =>
      cases hba with
      | inl hworse => exact absurd hworse hbetter.asymm
      | inr hsame => exact absurd (hsame.1 ▸ hbetter) Better.irrefl
    | inr hle =>
      cases hba with
      | inl hworse => exact absurd (hle.1 ▸ hworse) Better.irrefl
      | inr hge => exact le_antisymm hle.2 hge.2
  rw [← map_snd_keyed hkeyed, List.map_map] at hnodup
  exact List.inj_on_of_nodup_map hnodup ha hb hsymbol

theorem metricRanks_perm {reordered : List (String × Value)} {ranks : List (String × Nat)}
    (hnodup : (values.map Prod.fst).Nodup) (hperm : reordered.Perm values)
    (h : metricRanks rounded values descending = .ok ranks) :
    metricRanks rounded reordered descending = .ok ranks := by
  obtain ⟨keyed, hkeyed, hranks⟩ := exists_of_bind_ok h
  obtain ⟨others, hothers, hsame⟩ := mapM_perm hperm hkeyed
  have hsorted : others.insertionSort (MetricBefore descending) =
      keyed.insertionSort (MetricBefore descending) := by
    have hleft := List.perm_insertionSort (MetricBefore descending) others
    have hright := List.perm_insertionSort (MetricBefore descending) keyed
    apply List.Perm.eq_of_pairwise _ (List.pairwise_insertionSort _ _)
      (List.pairwise_insertionSort _ _) (hleft.trans (hsame.trans hright.symm))
    intro a b ha hb
    exact eq_of_metricBefore hkeyed hnodup (hsame.subset (hleft.subset ha)) (hright.subset hb)
  apply bind_eq hothers
  rw [hsorted]
  exact hranks

/-- Ranks by competition, under keys that are ordered as the values are. -/
theorem metricRanks_competition (hkeyed : values.mapM (metricKey rounded descending) = .ok keyed)
    (hkeys : ∀ a ∈ keyed, ∀ b ∈ keyed, Better descending b.2.2 a.2.2 →
      Better descending b.1 a.1) :
    ∃ sorted : List (String × Value), sorted.Perm values ∧
      metricRanks rounded values descending = .ok (sorted.map fun item =>
        (item.1, 1 + values.countP fun other => Better descending other.2 item.2)) := by
  have hperm := List.perm_insertionSort (MetricBefore descending) keyed
  have hvalues := hperm.map Prod.snd
  rw [map_snd_keyed hkeyed] at hvalues
  have hsorted : ((keyed.insertionSort (MetricBefore descending)).map Prod.snd).Pairwise
      fun a b => ¬ Better descending b.2 a.2 := by
    apply List.pairwise_map.mpr
    apply (List.pairwise_insertionSort (MetricBefore descending) keyed).imp_of_mem
    intro a b ha hb hbefore hbetter
    have hkey := hkeys a (hperm.subset ha) b (hperm.subset hb) hbetter
    cases metricBefore_iff.mp hbefore with
    | inl hfirst => exact hkey.asymm hfirst
    | inr hsame => exact Better.irrefl (hsame.1 ▸ hkey)
  refine ⟨_, hvalues, bind_eq hkeyed (congrArg Except.ok ?_)⟩
  have hranks := assignRanks_sorted [] _ 0 hsorted nofun
  rw [List.nil_append] at hranks
  refine hranks.trans (List.map_congr_left fun item _ => ?_)
  rw [hvalues.countP_eq]

/-! ## The sort of the rows -/

variable {rows reordered ranked : List Row} {symbol : Row → String}
variable {metrics : List (Metric Row Value)}

omit [LinearOrder Value] in
theorem metricValues_eq (hsymbols : (rows.map symbol).Nodup) (value : Row → Value) :
    metricValues rows symbol value = rows.map fun row => (symbol row, value row) := by
  have hdistinct : KeyedDict.Distinct id (rows.map fun row => (symbol row, value row)) := by
    unfold KeyedDict.Distinct
    rw [List.map_map]
    exact hsymbols
  have hfold := KeyedDict.foldl_set (d := []) hdistinct
  rw [List.foldl_map] at hfold
  exact hfold

omit [LinearOrder Value] in
theorem nodup_metricValues (hsymbols : (rows.map symbol).Nodup) (value : Row → Value) :
    ((metricValues rows symbol value).map Prod.fst).Nodup := by
  rw [metricValues_eq hsymbols, List.map_map]
  exact hsymbols

theorem keyedRow_symbol {ranks : List (List (String × Nat))} {row : Row}
    {keyed : (Nat ×ₗ Nat ×ₗ List Nat ×ₗ String) × Row}
    (h : keyedRow symbol ranks row = .ok keyed) :
    keyed.2 = row ∧ (ofLex (ofLex (ofLex keyed.1).2).2).2 = symbol row := by
  obtain ⟨rowRanks, -, h⟩ := exists_of_bind_ok h
  obtain ⟨key, hkey, h⟩ := exists_of_bind_ok h
  cases h
  unfold aggregateKey at hkey
  split at hkey
  · cases hkey
  · cases hkey
    exact ⟨rfl, rfl⟩

theorem rankCrossSection_perm (hsymbols : (rows.map symbol).Nodup) (hperm : reordered.Perm rows)
    (h : rankCrossSection rounded rows symbol metrics = .ok ranked) :
    rankCrossSection rounded reordered symbol metrics = .ok ranked := by
  obtain ⟨ranks, hranks, h⟩ := exists_of_bind_ok h
  obtain ⟨keyed, hkeyed, h⟩ := exists_of_bind_ok h
  have hothers : (reordered.map symbol).Nodup := (hperm.map symbol).nodup_iff.mpr hsymbols
  have hsame : (metrics.mapM fun metric => metricRanks rounded
      (metricValues reordered symbol metric.value) metric.descending) = .ok ranks := by
    apply mapM_of_forall₂
    apply (forall₂_of_mapM_ok hranks).imp
    intro metric found hfound
    apply metricRanks_perm (nodup_metricValues hsymbols metric.value) _ hfound
    rw [metricValues_eq hsymbols, metricValues_eq hothers]
    exact hperm.map _
  obtain ⟨others, hmapped, hkeys⟩ := mapM_perm hperm hkeyed
  have hsorted : others.insertionSort (fun a b => a.1 ≤ b.1) =
      keyed.insertionSort fun a b => a.1 ≤ b.1 := by
    have hleft := List.perm_insertionSort (fun a b => a.1 ≤ b.1) others
    have hright := List.perm_insertionSort (fun a b => a.1 ≤ b.1) keyed
    apply List.Perm.eq_of_pairwise _ (List.pairwise_insertionSort _ _)
      (List.pairwise_insertionSort _ _) (hleft.trans (hkeys.trans hright.symm))
    intro a b ha hb hab hba
    have hkey : a.1 = b.1 := le_antisymm hab hba
    obtain ⟨left, hin, hrow⟩ := exists_of_forall₂ (forall₂_of_mapM_ok hkeyed).flip
      (hkeys.subset (hleft.subset ha))
    obtain ⟨right, hin', hrow'⟩ := exists_of_forall₂ (forall₂_of_mapM_ok hkeyed).flip
      (hright.subset hb)
    obtain ⟨hsnd, hsymbol⟩ := keyedRow_symbol hrow
    obtain ⟨hsnd', hsymbol'⟩ := keyedRow_symbol hrow'
    apply Prod.ext hkey
    rw [hsnd, hsnd']
    apply List.inj_on_of_nodup_map hsymbols hin hin'
    rw [← hsymbol, ← hsymbol', hkey]
  apply bind_eq hsame
  apply bind_eq hmapped
  rw [hsorted]
  exact h

/-- The rank of a row under a metric, ties sharing the first of their places. -/
def Metric.competitionRank (metric : Metric Row Value) (rows : List Row) (row : Row) : Nat :=
  1 + rows.countP fun other =>
    Better metric.descending (metric.value other) (metric.value row)

/-- The unary minus keeps the values of the rows apart, and in their order. -/
def Metric.KeepsOrder (metric : Metric Row Value) (rounded : Value → Except String Value)
    (rows : List Row) : Prop :=
  metric.descending = true → ∀ a ∈ rows, ∀ b ∈ rows, ∀ x y,
    rounded (metric.value a) = .ok x → rounded (metric.value b) = .ok y →
      metric.value a < metric.value b → x < y

theorem Metric.Rounds.competition {metric : Metric Row Value}
    (hrounds : metric.Rounds rounded rows) (horder : metric.KeepsOrder rounded rows)
    (hsymbols : (rows.map symbol).Nodup) :
    ∃ ranks, metricRanks rounded (metricValues rows symbol metric.value) metric.descending =
        .ok ranks ∧ ∀ row ∈ rows,
          rankOf ranks (symbol row) = .ok (metric.competitionRank rows row) := by
  obtain ⟨ranks, hok, -⟩ := hrounds.ranks_ok symbol
  obtain ⟨keyed, hkeyed, -⟩ := exists_of_bind_ok hok
  have hall := forall₂_of_mapM_ok hkeyed
  have hkeys : ∀ a ∈ keyed, ∀ b ∈ keyed, Better metric.descending b.2.2 a.2.2 →
      Better metric.descending b.1 a.1 := by
    intro a ha b hb hbetter
    obtain ⟨item, hitem, hkey⟩ := exists_of_forall₂ hall.flip ha
    obtain ⟨item', hitem', hkey'⟩ := exists_of_forall₂ hall.flip hb
    rw [metricValues_eq hsymbols] at hitem hitem'
    obtain ⟨row, hrow, rfl⟩ := List.mem_map.mp hitem
    obtain ⟨row', hrow', rfl⟩ := List.mem_map.mp hitem'
    obtain ⟨hsnd, hminus, hplain⟩ := metricKey_spec hkey
    obtain ⟨hsnd', hminus', hplain'⟩ := metricKey_spec hkey'
    rw [hsnd, hsnd'] at hbetter
    cases hdescending : metric.descending with
    | true =>
      rw [hdescending] at hbetter
      exact horder hdescending row hrow row' hrow' _ _ (hminus hdescending)
        (hminus' hdescending) hbetter
    | false =>
      rw [hplain hdescending, hplain' hdescending]
      rwa [hdescending] at hbetter
  obtain ⟨sorted, hperm, hranks⟩ := metricRanks_competition hkeyed hkeys
  refine ⟨_, hranks, fun row hrow => ?_⟩
  have hvalues := metricValues_eq hsymbols metric.value
  have hin : (symbol row, metric.value row) ∈ sorted := by
    rw [hperm.mem_iff, hvalues]
    exact List.mem_map_of_mem hrow
  have hdistinct : KeyedDict.Distinct id (sorted.map fun item => (item.1,
      1 + (metricValues rows symbol metric.value).countP fun other =>
        Better metric.descending other.2 item.2)) := by
    unfold KeyedDict.Distinct
    rw [List.map_map]
    exact (hperm.map Prod.fst).nodup_iff.mpr (nodup_metricValues hsymbols metric.value)
  have hget := KeyedDict.get_of_mem hdistinct (List.mem_map_of_mem hin)
  unfold rankOf
  rw [id] at hget
  rw [hget]
  dsimp only
  rw [hvalues, List.countP_map]
  rfl

/-- The key of a row: its weakest rank, the sum of its ranks, the ranks, and the symbol. -/
def rankingKey (symbol : Row → String) (metrics : List (Metric Row Value)) (rows : List Row)
    (row : Row) : Nat ×ₗ Nat ×ₗ List Nat ×ₗ String :=
  let ranks := metrics.map fun metric => metric.competitionRank rows row
  toLex (ranks.foldl max 0, toLex (ranks.sum, toLex (ranks, symbol row)))

theorem rankCrossSection_sorted (hsymbols : (rows.map symbol).Nodup) (hmetrics : metrics ≠ [])
    (hrounds : ∀ metric ∈ metrics, metric.Rounds rounded rows)
    (horder : ∀ metric ∈ metrics, metric.KeepsOrder rounded rows) :
    rankCrossSection rounded rows symbol metrics = .ok
      (((rows.map fun row => (rankingKey symbol metrics rows row, row)).insertionSort
        fun a b => a.1 ≤ b.1).map Prod.snd) := by
  have hranked : ∀ metric ∈ metrics, ∃ ranks, metricRanks rounded
      (metricValues rows symbol metric.value) metric.descending = .ok ranks :=
    fun metric hm => ((hrounds metric hm).ranks_ok symbol).imp fun _ h => h.1
  obtain ⟨ranks, hranks⟩ := mapM_total hranked
  have hall := (List.forall₂_and_left metrics ranks).mpr ⟨fun _ hm => hm, forall₂_of_mapM_ok hranks⟩
  have hrow : ∀ row ∈ rows,
      keyedRow symbol ranks row = .ok (rankingKey symbol metrics rows row, row) := by
    intro row hrow
    have hmapped : (ranks.mapM fun entries => rankOf entries (symbol row)) =
        .ok (metrics.map fun metric => metric.competitionRank rows row) := by
      apply mapM_of_forall₂
      rw [List.forall₂_map_right_iff]
      apply hall.flip.imp
      intro entries metric hmetric
      obtain ⟨found, hfound, hrank⟩ := (hrounds metric hmetric.1).competition
        (horder metric hmetric.1) hsymbols
      obtain rfl := Except.ok.inj (hfound.symm.trans hmetric.2)
      exact hrank row hrow
    apply bind_eq hmapped
    apply bind_eq (aggregateKey_ok (fun hnil => hmetrics (List.map_eq_nil_iff.mp hnil)) _)
    rfl
  have hkeyed : rows.mapM (keyedRow symbol ranks) =
      .ok (rows.map fun row => (rankingKey symbol metrics rows row, row)) := by
    apply mapM_of_forall₂
    rw [List.forall₂_map_right_iff, List.forall₂_same]
    exact hrow
  exact bind_eq hranks (bind_eq hkeyed rfl)

/-- Rows that are equal under every metric stay in the order of their symbols. -/
theorem rankCrossSection_tied (hsorted : (rows.map symbol).Pairwise (· < ·)) (hmetrics : metrics ≠ [])
    (hrounds : ∀ metric ∈ metrics, metric.Rounds rounded rows)
    (htied : ∀ metric ∈ metrics, ∀ a ∈ rows, ∀ b ∈ rows, metric.value a = metric.value b) :
    rankCrossSection rounded rows symbol metrics = .ok rows := by
  have horder : ∀ metric ∈ metrics, metric.KeepsOrder rounded rows := by
    intro metric hm _ a ha b hb _ _ _ _ hless
    exact absurd hless (htied metric hm a ha b hb).not_lt
  have hranks : ∀ row ∈ rows, (metrics.map fun metric => metric.competitionRank rows row) =
      metrics.map fun _ => 1 := by
    intro row hrow
    apply List.map_congr_left
    intro metric hm
    have hnone : (rows.countP fun other =>
        Better metric.descending (metric.value other) (metric.value row)) = 0 := by
      apply List.countP_eq_zero.mpr
      intro other hother
      rw [htied metric hm other hother row hrow]
      exact fun hself => Better.irrefl (of_decide_eq_true hself)
    rw [Metric.competitionRank, hnone]
  have hkeys : (rows.map fun row => (rankingKey symbol metrics rows row, row)).Pairwise
      fun a b => a.1 ≤ b.1 := by
    rw [List.pairwise_map] at hsorted ⊢
    apply hsorted.imp_of_mem
    intro a b ha hb hless
    unfold rankingKey
    rw [hranks a ha, hranks b hb]
    refine Prod.Lex.toLex_le_toLex.mpr (.inr ⟨rfl, Prod.Lex.toLex_le_toLex.mpr (.inr ⟨rfl, ?_⟩)⟩)
    exact Prod.Lex.toLex_le_toLex.mpr (.inr ⟨rfl, hless.le⟩)
  rw [rankCrossSection_sorted (hsorted.imp fun h => h.ne) hmetrics hrounds horder,
    hkeys.insertionSort_eq, List.map_map]
  exact congrArg Except.ok (List.map_id rows)

/-! ## Dominance -/

/-- `a` is at least as good as `b` under every metric, and better under one. -/
def Dominates (metrics : List (Metric Row Value)) (a b : Row) : Prop :=
  (∀ metric ∈ metrics, ¬ Better metric.descending (metric.value b) (metric.value a)) ∧
    ∃ metric ∈ metrics, Better metric.descending (metric.value a) (metric.value b)

variable {a b : Row} {metric : Metric Row Value}

theorem competitionRank_le
    (h : ¬ Better metric.descending (metric.value b) (metric.value a)) :
    metric.competitionRank rows a ≤ metric.competitionRank rows b := by
  apply Nat.add_le_add_left
  apply List.countP_mono_left
  intro other _ hother
  exact decide_eq_true ((of_decide_eq_true hother).of_not h)

theorem competitionRank_lt (ha : a ∈ rows)
    (h : Better metric.descending (metric.value a) (metric.value b)) :
    metric.competitionRank rows a < metric.competitionRank rows b := by
  have hmono : ∀ others : List Row,
      (others.countP fun other => Better metric.descending (metric.value other) (metric.value a)) ≤
        others.countP fun other =>
          Better metric.descending (metric.value other) (metric.value b) := by
    intro others
    apply List.countP_mono_left
    intro other _ hother
    exact decide_eq_true ((of_decide_eq_true hother).of_not h.asymm)
  obtain ⟨before, after, rfl⟩ := List.append_of_mem ha
  have hbefore := hmono before
  have hafter := hmono after
  unfold Metric.competitionRank
  rw [List.countP_append, List.countP_append, List.countP_cons, List.countP_cons,
    if_neg (fun hself => Better.irrefl (of_decide_eq_true hself)), if_pos (decide_eq_true h)]
  omega

omit [LinearOrder Value] in
theorem foldl_max_le {f g : Metric Row Value → Nat} (h : ∀ metric ∈ metrics, f metric ≤ g metric)
    {m n : Nat} (hstart : m ≤ n) : (metrics.map f).foldl max m ≤ (metrics.map g).foldl max n := by
  induction metrics generalizing m n with
  | nil => exact hstart
  | cons first metrics ih =>
    apply ih fun metric hm => h metric (List.mem_cons_of_mem _ hm)
    exact max_le_max hstart (h first List.mem_cons_self)

theorem rankingKey_lt (ha : a ∈ rows) (h : Dominates metrics a b) :
    rankingKey symbol metrics rows a < rankingKey symbol metrics rows b := by
  obtain ⟨hgood, better, hbetter, hstrict⟩ := h
  have hranks : ∀ metric ∈ metrics,
      metric.competitionRank rows a ≤ metric.competitionRank rows b :=
    fun metric hm => competitionRank_le (hgood metric hm)
  have hmax := foldl_max_le hranks (Nat.le_refl 0)
  have hsum := List.sum_lt_sum _ _ hranks ⟨better, hbetter, competitionRank_lt ha hstrict⟩
  unfold rankingKey
  rw [Prod.Lex.toLex_lt_toLex]
  rcases hmax.lt_or_eq with hless | hsame
  · exact .inl hless
  · refine .inr ⟨hsame, ?_⟩
    rw [Prod.Lex.toLex_lt_toLex]
    exact .inl hsum

theorem sublist_of_sorted {α : Type} {R : α → α → Prop} {l : List α} (hsorted : l.Pairwise R)
    {x y : α} (hx : x ∈ l) (hy : y ∈ l) (hne : x ≠ y) (hyx : ¬ R y x) : [x, y].Sublist l := by
  induction hsorted with
  | nil => cases hx
  | cons hfirst _ ih =>
    cases List.mem_cons.mp hx with
    | inl hhead =>
      subst hhead
      apply List.Sublist.cons_cons
      rw [List.singleton_sublist]
      exact (List.mem_cons.mp hy).resolve_left hne.symm
    | inr hlater =>
      cases List.mem_cons.mp hy with
      | inl hhead => exact absurd (hhead ▸ hfirst x hlater) hyx
      | inr hy => exact (ih hlater hy).cons _

theorem precedes_of_dominates (hsymbols : (rows.map symbol).Nodup) (hmetrics : metrics ≠ [])
    (hrounds : ∀ metric ∈ metrics, metric.Rounds rounded rows)
    (horder : ∀ metric ∈ metrics, metric.KeepsOrder rounded rows)
    (hranked : rankCrossSection rounded rows symbol metrics = .ok ranked) (ha : a ∈ rows)
    (hb : b ∈ rows) (h : Dominates metrics a b) : [a, b].Sublist ranked := by
  rw [rankCrossSection_sorted hsymbols hmetrics hrounds horder] at hranked
  cases hranked
  have hkey : rankingKey symbol metrics rows a < rankingKey symbol metrics rows b :=
    rankingKey_lt ha h
  have hin : ∀ row ∈ rows, (rankingKey symbol metrics rows row, row) ∈
      (rows.map fun row => (rankingKey symbol metrics rows row, row)).insertionSort
        fun a b => a.1 ≤ b.1 := by
    intro row hrow
    rw [List.mem_insertionSort]
    exact List.mem_map_of_mem hrow
  have hsublist := sublist_of_sorted (List.pairwise_insertionSort _ _) (hin a ha) (hin b hb)
    (fun hsame => hkey.ne (congrArg Prod.fst hsame)) (not_le.mpr hkey)
  exact hsublist.map Prod.snd

/-! ## Decimals -/

/-- The decimal context gives no two values of a metric that is sorted by `-value` the same
number. -/
def Metric.KeptApart (metric : Metric Row DecimalNumber) (rows : List Row) : Prop :=
  metric.descending = true → ∀ a ∈ rows, ∀ b ∈ rows,
    contextNumber (metric.value a) = contextNumber (metric.value b) → metric.value a = metric.value b

theorem Metric.KeptApart.keepsOrder {metric : Metric Row DecimalNumber} {rows : List Row}
    (h : metric.KeptApart rows) : metric.KeepsOrder contextNumber rows := by
  intro hdescending a ha b hb x y hx hy hless
  apply lt_of_le_of_ne (contextNumber_mono hless.le hx hy)
  intro hsame
  apply hless.ne
  exact h hdescending a ha b hb (by rw [hx, hy, hsame])

/-- Ranking sees the rows as a set, and a row that dominates another one comes before it. -/
theorem rankCrossSection_dominance (rows : List Row) (symbol : Row → String)
    (metrics : List (Metric Row DecimalNumber)) (hsymbols : (rows.map symbol).Nodup)
    (hmetrics : rows = [] ∨ metrics ≠ [])
    (hrounds : ∀ metric ∈ metrics, metric.Rounds contextNumber rows) :
    ∃ ranked, rankCrossSection contextNumber rows symbol metrics = .ok ranked ∧
      ranked.Perm rows ∧
      (∀ others : List Row, (others.map symbol).Nodup → (∀ row, row ∈ others ↔ row ∈ rows) →
        rankCrossSection contextNumber others symbol metrics = .ok ranked) ∧
      ((∀ metric ∈ metrics, metric.KeptApart rows) → ∀ a ∈ rows, ∀ b ∈ rows,
        Dominates metrics a b → [a, b].Sublist ranked) := by
  have hreturns : ∃ ranked, rankCrossSection contextNumber rows symbol metrics = .ok ranked ∧
      ranked.Perm rows := by
    by_cases hnone : metrics = []
    · obtain rfl := hmetrics.resolve_right (not_not.mpr hnone)
      subst hnone
      exact ⟨[], rfl, .refl _⟩
    · exact rankCrossSection_ok rows symbol metrics hnone hrounds
  obtain ⟨ranked, hok, hperm⟩ := hreturns
  refine ⟨ranked, hok, hperm, ?_, ?_⟩
  · intro others hothers hsame
    apply rankCrossSection_perm hsymbols _ hok
    exact (List.perm_ext_iff_of_nodup (hothers.of_map _) (hsymbols.of_map _)).mpr hsame
  · intro hapart a ha b hb hdominates
    obtain ⟨metric, hmetric, -⟩ := hdominates.2
    exact precedes_of_dominates hsymbols (List.ne_nil_of_mem hmetric) hrounds
      (fun metric hm => (hapart metric hm).keepsOrder) hok ha hb hdominates

/-- Symbols with a value, of which the larger is better. -/
def largest : Metric (String × Rat) DecimalNumber :=
  ⟨fun row => ((row.2 : WithTop Rat) : DecimalNumber), true⟩

/-- No metric leaves no weakest rank, and values of 29 digits are sorted by their symbols. -/
theorem rankCrossSection_alike :
    rankCrossSection contextNumber [("A", 1)] Prod.fst ([] : List (Metric (String × Rat) _)) =
        .error "ValueError: max() iterable argument is empty" ∧
      rankCrossSection contextNumber [("A", 10 ^ 28 + 1), ("B", 10 ^ 28 + 2)] Prod.fst [largest] =
        .ok [("A", 10 ^ 28 + 1), ("B", 10 ^ 28 + 2)] ∧
      Dominates [largest] ("B", 10 ^ 28 + 2) ("A", 10 ^ 28 + 1) := by
  refine ⟨rfl, by decide +kernel, ?_, largest, List.mem_singleton_self _, by decide +kernel⟩
  intro metric hm
  rw [List.mem_singleton.mp hm]
  decide +kernel

/-- Two symbols with the same value come before one with less, in whatever order the rows are. -/
theorem rankCrossSection_dominance_three : ∃ ranked,
    rankCrossSection contextNumber [("A", 1), ("B", 2), ("C", 2)] Prod.fst [largest] = .ok ranked ∧
      rankCrossSection contextNumber [("C", 2), ("A", 1), ("B", 2)] Prod.fst [largest] = .ok ranked ∧
      [("B", 2), ("A", 1)].Sublist ranked ∧ [("C", 2), ("A", 1)].Sublist ranked := by
  let rows : List (String × Rat) := [("A", 1), ("B", 2), ("C", 2)]
  have hexact : ∀ row ∈ rows, contextNumber (largest.value row) = .ok (largest.value row) := by
    intro row hm
    have hrow : contextRound row.2 = .ok row.2 := by
      have hvalue : row.2 = 1 ∨ row.2 = 2 := by
        revert row
        decide +kernel
      cases hvalue with
      | inl hone =>
        rw [hone]
        exact contextRound_one
      | inr htwo =>
        rw [htwo]
        exact @contextRound_of_digits 2 2 0 (by decide) (by decide) (by decide) (by norm_num)
    unfold largest
    rw [contextNumber_coe, hrow]
    rfl
  have hrounds : ∀ metric ∈ [largest], metric.Rounds contextNumber rows := by
    intro metric hm _ row hrow
    rw [List.mem_singleton.mp hm]
    exact ⟨_, hexact row hrow⟩
  have hapart : ∀ metric ∈ [largest], metric.KeptApart rows := by
    intro metric hm _ a ha b hb hsame
    rw [List.mem_singleton.mp hm, hexact a ha, hexact b hb] at hsame
    rw [List.mem_singleton.mp hm]
    exact Except.ok.inj hsame
  have hdominates : ∀ name : String, Dominates [largest] (name, 2) ("A", 1) := by
    have hbetter : Better true (((2 : Rat) : WithTop Rat) : DecimalNumber) ((1 : Rat) : WithTop Rat) := by
      decide +kernel
    have hworse : ¬ Better true (((1 : Rat) : WithTop Rat) : DecimalNumber) ((2 : Rat) : WithTop Rat) := by
      decide +kernel
    intro name
    refine ⟨fun metric hm => ?_, largest, List.mem_singleton_self _, hbetter⟩
    rw [List.mem_singleton.mp hm]
    exact hworse
  have hperm : [("C", (2 : Rat)), ("A", 1), ("B", 2)].Perm rows :=
    (List.perm_append_comm : ([("C", (2 : Rat))] ++ [("A", 1), ("B", 2)]).Perm _)
  obtain ⟨ranked, hok, -, hsame, hprecedes⟩ := rankCrossSection_dominance rows Prod.fst [largest]
    (by decide) (.inr (List.cons_ne_nil _ _)) hrounds
  refine ⟨ranked, hok, hsame _ (by decide) (fun _ => hperm.mem_iff), ?_, ?_⟩
  · exact hprecedes hapart _ (by decide) _ (by decide) (hdominates "B")
  · exact hprecedes hapart _ (by decide) _ (by decide) (hdominates "C")

end MiryFormal
