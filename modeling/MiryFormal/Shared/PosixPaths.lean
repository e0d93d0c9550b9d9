import Mathlib.Data.List.Induction

/-!
# POSIX paths

`normpath` and the directory that a path leads to. A directory is the list of the names from the
root down; links are left out, as `normpath` leaves them out.
-/

namespace MiryFormal

set_option autoImplicit false

namespace PosixPath

def dot : List Char := ['.']
def dotdot : List Char := ['.', '.']

/-- One component of a path, taken in a directory. The root is its own parent. -/
def enter (directory : List (List Char)) (component : List Char) : List (List Char) :=
  if component = [] ∨ component = dot then directory
  else if component = dotdot then directory.dropLast
  else directory ++ [component]

def walk (directory : List (List Char)) (path : List Char) : List (List Char) :=
  (path.splitOn '/').foldl enter directory

/-- The body of the loop in `normpath`. -/
def reduceStep (initialSlashes : Nat) (newComps : List (List Char)) (comp : List Char) :
    List (List Char) :=
  if comp = [] ∨ comp = dot then newComps
  else if comp ≠ dotdot ∨ (initialSlashes = 0 ∧ newComps = []) ∨
      newComps.getLast? = some dotdot then newComps ++ [comp]
  else newComps.dropLast

def normpath (path : List Char) : List Char :=
  if path = [] then dot
  else
    let initialSlashes :=
      if "/".toList <+: path then
        if "//".toList <+: path ∧ ¬ "///".toList <+: path then 2 else 1
      else 0
    let newComps := (path.splitOn '/').foldl (reduceStep initialSlashes) []
    let text := List.replicate initialSlashes '/' ++ ['/'].intercalate newComps
    if text = [] then dot else text

def IsRelative (path : List Char) : Prop := ¬ "/".toList <+: path

instance (path : List Char) : Decidable (IsRelative path) :=
  inferInstanceAs (Decidable (¬ _))

/-- On its way the path never leaves the directory that it starts in. -/
def StaysInside (path : List Char) : Prop :=
  ∀ directory n, directory <+: ((path.splitOn '/').take n).foldl enter directory

/-! ## Reduced components -/

/-- A proper name of an entry. -/
def IsName (component : List Char) : Prop :=
  component ≠ [] ∧ component ≠ dot ∧ component ≠ dotdot

/-- First the steps up, then names alone. -/
def Reduced (comps : List (List Char)) : Prop :=
  ∃ ups names, comps = List.replicate ups dotdot ++ names ∧ ∀ name ∈ names, IsName name

variable {comps : List (List Char)} {comp path : List Char}

theorem enter_name (directory : List (List Char)) (h : IsName comp) :
    enter directory comp = directory ++ [comp] := by
  rw [enter, if_neg (by simp [h.1, h.2.1]), if_neg h.2.2]

theorem enter_dotdot (directory : List (List Char)) :
    enter directory dotdot = directory.dropLast := by
  rw [enter, if_neg (by decide), if_pos rfl]

theorem Reduced.nil : Reduced [] := ⟨0, [], rfl, fun _ hm => absurd hm List.not_mem_nil⟩

theorem Reduced.snoc (h : Reduced comps) (hcomp : IsName comp) : Reduced (comps ++ [comp]) := by
  obtain ⟨ups, names, rfl, hnames⟩ := h
  refine ⟨ups, names ++ [comp], List.append_assoc _ _ _, fun name hm => ?_⟩
  rcases List.mem_append.mp hm with hm | hm
  · exact hnames name hm
  · rw [List.mem_singleton.mp hm]
    exact hcomp

theorem Reduced.up (h : Reduced comps)
    (hlast : comps = [] ∨ comps.getLast? = some dotdot) : Reduced (comps ++ [dotdot]) := by
  obtain ⟨ups, names, rfl, hnames⟩ := h
  have hnil : names = [] := by
    rcases hlast with hnil | hlast
    · exact (List.append_eq_nil_iff.mp hnil).2
    · cases hcases : names.getLast? with
      | none => exact List.getLast?_eq_none_iff.mp hcases
      | some name =>
        rw [List.getLast?_append, hcases, Option.some_or, Option.some.injEq] at hlast
        exact absurd hlast (hnames name (List.mem_of_getLast? hcases)).2.2
  refine ⟨ups + 1, [], ?_, fun _ hm => absurd hm List.not_mem_nil⟩
  rw [hnil, List.append_nil, List.append_nil, List.replicate_succ']

/-- A step up that is kept neither at the front nor after another one takes a name away. -/
theorem Reduced.pop (h : Reduced comps) (hne : comps ≠ [])
    (hlast : comps.getLast? ≠ some dotdot) :
    ∃ init name, comps = init ++ [name] ∧ IsName name ∧ Reduced init := by
  obtain ⟨ups, names, rfl, hnames⟩ := h
  have hnames' : names ≠ [] := by
    rintro rfl
    rw [List.append_nil] at hne hlast
    obtain ⟨n, rfl⟩ := Nat.exists_eq_succ_of_ne_zero fun hzero : ups = 0 => hne (by rw [hzero]; rfl)
    rw [List.replicate_succ', List.getLast?_append] at hlast
    exact hlast rfl
  refine ⟨List.replicate ups dotdot ++ names.dropLast, names.getLast hnames', ?_,
    hnames _ (List.getLast_mem hnames'), ups, names.dropLast, rfl,
    fun name hm => hnames name (List.dropLast_subset _ hm)⟩
  rw [List.append_assoc, List.dropLast_concat_getLast]

theorem reduceStep_cases (h : Reduced comps) (comp : List Char) :
    ((comp = [] ∨ comp = dot) ∧ reduceStep 0 comps comp = comps) ∨
    (IsName comp ∧ reduceStep 0 comps comp = comps ++ [comp]) ∨
    (comp = dotdot ∧ (comps = [] ∨ comps.getLast? = some dotdot) ∧
      reduceStep 0 comps comp = comps ++ [dotdot]) ∨
    (comp = dotdot ∧ ∃ init name, comps = init ++ [name] ∧ IsName name ∧ Reduced init ∧
      reduceStep 0 comps comp = init) := by
  unfold reduceStep
  by_cases hskip : comp = [] ∨ comp = dot
  · exact .inl ⟨hskip, if_pos hskip⟩
  rw [if_neg hskip]
  by_cases hup : comp = dotdot
  · by_cases hkeep : comps = [] ∨ comps.getLast? = some dotdot
    · refine .inr (.inr (.inl ⟨hup, hkeep, ?_⟩))
      rw [if_pos (.inr (hkeep.imp_left fun hnil => ⟨rfl, hnil⟩)), hup]
    · obtain ⟨init, name, rfl, hname, hinit⟩ :=
        h.pop (fun hnil => hkeep (.inl hnil)) fun hlast => hkeep (.inr hlast)
      refine .inr (.inr (.inr ⟨hup, init, name, rfl, hname, hinit, ?_⟩))
      have hdrop : ¬ (comp ≠ dotdot ∨ (0 = 0 ∧ init ++ [name] = []) ∨
          (init ++ [name]).getLast? = some dotdot) := by
        rintro (hne | ⟨-, hnil⟩ | hlast)
        · exact hne hup
        · exact hkeep (.inl hnil)
        · exact hkeep (.inr hlast)
      rw [if_neg hdrop, List.dropLast_concat]
  · rw [not_or] at hskip
    exact .inr (.inl ⟨⟨hskip.1, hskip.2, hup⟩, if_pos (.inl hup)⟩)

theorem reduceStep_reduced (h : Reduced comps) (comp : List Char) :
    Reduced (reduceStep 0 comps comp) := by
  obtain ⟨-, heq⟩ | ⟨hname, heq⟩ | ⟨-, hlast, heq⟩ | ⟨-, init, name, -, -, hinit, heq⟩ :=
    reduceStep_cases h comp
  · rwa [heq]
  · rw [heq]
    exact h.snoc hname
  · rw [heq]
    exact h.up hlast
  · rwa [heq]

theorem foldl_enter_append (directory : List (List Char)) (comp : List Char) :
    (comps ++ [comp]).foldl enter directory = enter (comps.foldl enter directory) comp := by
  rw [List.foldl_append, List.foldl_cons, List.foldl_nil]

/-- The reduced components lead where the components led. -/
theorem reduceStep_walk (h : Reduced comps) (directory : List (List Char)) (comp : List Char) :
    (reduceStep 0 comps comp).foldl enter directory =
      enter (comps.foldl enter directory) comp := by
  obtain ⟨hskip, heq⟩ | ⟨-, heq⟩ | ⟨hup, -, heq⟩ | ⟨hup, init, name, hcomps, hname, -, heq⟩ :=
    reduceStep_cases h comp
  · rw [heq, enter, if_pos hskip]
  · rw [heq, foldl_enter_append]
  · rw [heq, foldl_enter_append, hup]
  · rw [heq, hup, hcomps, foldl_enter_append, enter_name _ hname, enter_dotdot,
      List.dropLast_concat]

theorem reduceStep_climbed (h : Reduced comps) (hup : dotdot ∈ comps) (comp : List Char) :
    dotdot ∈ reduceStep 0 comps comp := by
  obtain ⟨-, heq⟩ | ⟨-, heq⟩ | ⟨-, -, heq⟩ | ⟨-, init, name, rfl, hname, -, heq⟩ :=
    reduceStep_cases h comp
  · rwa [heq]
  · rw [heq]
    exact List.mem_append_left _ hup
  · rw [heq]
    exact List.mem_append_left _ hup
  · rw [heq]
    rcases List.mem_append.mp hup with hm | hm
    · exact hm
    · exact absurd (List.mem_singleton.mp hm).symm hname.2.2

def reduced (components : List (List Char)) : List (List Char) :=
  components.foldl (reduceStep 0) []

variable {components : List (List Char)}

theorem reduced_snoc (components : List (List Char)) (comp : List Char) :
    reduced (components ++ [comp]) = reduceStep 0 (reduced components) comp := by
  rw [reduced, List.foldl_append, List.foldl_cons, List.foldl_nil, reduced]

theorem reduced_reduced (components : List (List Char)) : Reduced (reduced components) := by
  induction components using List.reverseRecOn with
  | nil => exact Reduced.nil
  | append_singleton components comp ih =>
    rw [reduced_snoc]
    exact reduceStep_reduced ih comp

theorem foldl_enter_reduced (directory components : List (List Char)) :
    (reduced components).foldl enter directory = components.foldl enter directory := by
  induction components using List.reverseRecOn with
  | nil => rfl
  | append_singleton components comp ih =>
    rw [reduced_snoc, reduceStep_walk (reduced_reduced components), ih, foldl_enter_append]

theorem reduced_climbed (hup : dotdot ∈ reduced components) (more : List (List Char)) :
    dotdot ∈ reduced (components ++ more) := by
  induction more using List.reverseRecOn with
  | nil => rwa [List.append_nil]
  | append_singleton more comp ih =>
    rw [← List.append_assoc, reduced_snoc]
    exact reduceStep_climbed (reduced_reduced _) ih comp

theorem foldl_enter_names (directory : List (List Char)) (h : ∀ comp ∈ comps, IsName comp) :
    comps.foldl enter directory = directory ++ comps := by
  induction comps generalizing directory with
  | nil => rw [List.foldl_nil, List.append_nil]
  | cons comp comps ih =>
    rw [List.foldl_cons, enter_name directory (h comp List.mem_cons_self),
      ih _ fun other hm => h other (List.mem_cons_of_mem comp hm), List.append_assoc,
      List.singleton_append]

theorem Reduced.names (h : Reduced comps) (hup : dotdot ∉ comps) : ∀ comp ∈ comps, IsName comp := by
  obtain ⟨ups, names, rfl, hnames⟩ := h
  cases ups with
  | zero => simpa using hnames
  | succ n => exact absurd (List.mem_append_left _ (List.mem_replicate.mpr ⟨n.succ_ne_zero, rfl⟩)) hup

/-- A path stays inside exactly when no step up is left at its front. -/
theorem staysInside_iff : StaysInside path ↔ dotdot ∉ reduced (path.splitOn '/') := by
  constructor
  · intro h hup
    -- from a directory with an empty name, no path without empty names comes back below it
    obtain ⟨ups, names, heq, hnames⟩ := reduced_reduced (path.splitOn '/')
    have hpositive : ups ≠ 0 := by
      rintro rfl
      rw [heq] at hup
      exact (hnames dotdot hup).2.2 rfl
    have hwalk := h [[]] (path.splitOn '/').length
    rw [List.take_length, ← foldl_enter_reduced, heq, List.foldl_append] at hwalk
    have hroot : ∀ n, (List.replicate n dotdot).foldl enter [] = [] := by
      intro n
      induction n with
      | zero => rfl
      | succ n ih => rw [List.replicate_succ, List.foldl_cons, enter_dotdot, List.dropLast_nil, ih]
    obtain ⟨n, rfl⟩ := Nat.exists_eq_succ_of_ne_zero hpositive
    have hup : enter [[]] dotdot = [] := enter_dotdot [[]]
    rw [List.replicate_succ, List.foldl_cons, hup, hroot, foldl_enter_names [] hnames,
      List.nil_append] at hwalk
    exact (hnames [] (hwalk.subset List.mem_cons_self)).1 rfl
  · intro h directory n
    have hup : dotdot ∉ reduced ((path.splitOn '/').take n) := fun hm => by
      have hmore := reduced_climbed hm ((path.splitOn '/').drop n)
      rw [List.take_append_drop] at hmore
      exact h hmore
    rw [← foldl_enter_reduced, foldl_enter_names directory ((reduced_reduced _).names hup)]
    exact List.prefix_append _ _

/-! ## Normalized texts -/

theorem slash_notMem (hm : comp ∈ path.splitOn '/') : '/' ∉ comp := by
  induction path generalizing comp with
  | nil =>
    rw [List.splitOn_nil, List.mem_singleton] at hm
    rw [hm]
    exact List.not_mem_nil
  | cons c path ih =>
    rw [List.splitOn_cons_eq_if_modifyHead] at hm
    split at hm
    · rcases List.mem_cons.mp hm with rfl | hm
      · exact List.not_mem_nil
      · exact ih hm
    · rename_i hc
      have hc : '/' ≠ c := fun heq => hc (by rw [heq, beq_self_eq_true])
      obtain ⟨first, rest, hsplit⟩ := List.exists_cons_of_ne_nil (List.splitOn_ne_nil '/' path)
      rw [hsplit, List.modifyHead_cons] at hm
      rcases List.mem_cons.mp hm with rfl | hm
      · rw [List.mem_cons, not_or]
        exact ⟨hc, ih (by rw [hsplit]; exact List.mem_cons_self)⟩
      · exact ih (by rw [hsplit]; exact List.mem_cons_of_mem first hm)

theorem mem_of_mem_reduced (hm : comp ∈ reduced components) : comp ∈ components := by
  induction components using List.reverseRecOn generalizing comp with
  | nil => exact absurd hm List.not_mem_nil
  | append_singleton components last ih =>
    rw [reduced_snoc] at hm
    have hsnoc : comp ∈ reduced components ++ [last] → comp ∈ components ++ [last] := by
      intro hm
      rcases List.mem_append.mp hm with hm | hm
      · exact List.mem_append_left _ (ih hm)
      · exact List.mem_append_right _ hm
    obtain ⟨-, heq⟩ | ⟨-, heq⟩ | ⟨hup, -, heq⟩ | ⟨-, init, name, hcomps, -, -, heq⟩ :=
      reduceStep_cases (reduced_reduced components) last
    · exact List.mem_append_left _ (ih (heq ▸ hm))
    · exact hsnoc (heq ▸ hm)
    · exact hsnoc (by rw [hup]; exact heq ▸ hm)
    · refine List.mem_append_left _ (ih ?_)
      rw [hcomps]
      exact List.mem_append_left _ (heq ▸ hm)

theorem Reduced.ne_nil (h : Reduced comps) : ∀ comp ∈ comps, comp ≠ [] := by
  obtain ⟨ups, names, rfl, hnames⟩ := h
  intro comp hm
  rcases List.mem_append.mp hm with hm | hm
  · rw [(List.mem_replicate.mp hm).2]
    decide
  · exact (hnames comp hm).1

def joined (comps : List (List Char)) : List Char := ['/'].intercalate comps

theorem joined_ne_nil (h : ∀ comp ∈ comps, comp ≠ []) (hne : comps ≠ []) : joined comps ≠ [] := by
  obtain ⟨comp, rest, rfl⟩ := List.exists_cons_of_ne_nil hne
  have hcomp := h comp List.mem_cons_self
  unfold joined
  cases rest with
  | nil => rwa [List.intercalate_singleton]
  | cons next rest =>
    rw [List.intercalate_cons_cons]
    simp [hcomp]

theorem splitOn_joined_reduced (hne : reduced (path.splitOn '/') ≠ []) :
    (joined (reduced (path.splitOn '/'))).splitOn '/' = reduced (path.splitOn '/') :=
  List.splitOn_intercalate '/' (fun _ hm => slash_notMem (mem_of_mem_reduced hm)) hne

theorem normpath_relative (h : IsRelative path) :
    normpath path =
      if reduced (path.splitOn '/') = [] then dot else joined (reduced (path.splitOn '/')) := by
  unfold normpath
  split
  · rename_i hempty
    rw [hempty]
    rfl
  · rw [if_neg h]
    change (if joined (reduced (path.splitOn '/')) = [] then dot
      else joined (reduced (path.splitOn '/'))) = _
    by_cases hnil : reduced (path.splitOn '/') = []
    · rw [hnil, if_pos rfl]
      rfl
    · rw [if_neg hnil, if_neg (joined_ne_nil (reduced_reduced _).ne_nil hnil)]

/-- `normpath` keeps where a relative path leads. -/
theorem walk_normpath (h : IsRelative path) (directory : List (List Char)) :
    walk directory (normpath path) = walk directory path := by
  rw [normpath_relative h]
  unfold walk
  rw [← foldl_enter_reduced directory (path.splitOn '/')]
  split
  · rename_i hnil
    rw [hnil]
    rfl
  · rename_i hne
    rw [splitOn_joined_reduced hne]

/-- The name of a directory below is its normalized text. -/
theorem normpath_of_walk (h : IsRelative path) (hinside : StaysInside path)
    {directory names : List (List Char)} (hne : names ≠ [])
    (hwalk : walk directory path = directory ++ names) : normpath path = joined names := by
  have hnames := (reduced_reduced (path.splitOn '/')).names (staysInside_iff.mp hinside)
  unfold walk at hwalk
  rw [← foldl_enter_reduced, foldl_enter_names directory hnames] at hwalk
  rw [normpath_relative h, List.append_cancel_left hwalk, if_neg hne]

/-- The test for a path that climbs looks at the front of its normalized text. -/
theorem climbs_iff (h : IsRelative path) :
    (normpath path = dotdot ∨ "../".toList <+: normpath path) ↔ ¬ StaysInside path := by
  rw [normpath_relative h, staysInside_iff, not_not]
  by_cases hnil : reduced (path.splitOn '/') = []
  · rw [if_pos hnil, hnil]
    simp only [List.not_mem_nil, iff_false]
    decide
  rw [if_neg hnil]
  constructor
  · -- the text begins with the component `..` in both cases
    intro hfront
    have hsplit := splitOn_joined_reduced hnil
    rcases hfront with heq | ⟨rest, heq⟩
    · rw [heq] at hsplit
      rw [← hsplit]
      decide
    · rw [← heq] at hsplit
      have hslash : '/' ∉ dotdot := by decide
      have hfirst : ("../".toList ++ rest).splitOn '/' = dotdot :: rest.splitOn '/' :=
        List.splitOn_append_cons_self_of_not_mem hslash rest
      rw [← hsplit, hfirst]
      exact List.mem_cons_self
  · intro hup
    obtain ⟨ups, names, heq, hnames⟩ := reduced_reduced (path.splitOn '/')
    rw [heq] at hup ⊢
    cases ups with
    | zero => exact absurd rfl (hnames dotdot (by simpa using hup)).2.2
    | succ n =>
      rw [List.replicate_succ, List.cons_append]
      unfold joined
      cases List.replicate n dotdot ++ names with
      | nil => exact .inl List.intercalate_singleton
      | cons next rest =>
        right
        rw [List.intercalate_cons_cons, List.append_assoc]
        exact ⟨_, rfl⟩

end PosixPath

end MiryFormal
