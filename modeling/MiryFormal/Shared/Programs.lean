import Mathlib.Data.Nat.Find
import Mathlib.Tactic.Common

/-!
# Programs that call operations

A program is a tree: it returns, raises, or calls an operation of a store and goes on with
the answer. It can be run to its end, cut after some operations, or run together with other
programs, one operation at a time.
-/

namespace MiryFormal

set_option autoImplicit false

inductive Program (Op : Type) (Res : Op → Type) (ω : Type) (α : Type) where
  | ret (value : α)
  | raise (error : ω)
  | call (op : Op) (next : Res op → Program Op Res ω α)

namespace Program

variable {Op : Type} {Res : Op → Type} {ω σ α β : Type}

def bind : Program Op Res ω α → (α → Program Op Res ω β) → Program Op Res ω β
  | ret a, f => f a
  | raise e, _ => raise e
  | call op next, f => call op fun r => (next r).bind f

instance : Monad (Program Op Res ω) where
  pure := ret
  bind := bind

@[simp] theorem pure_eq (a : α) : (pure a : Program Op Res ω α) = ret a := rfl

@[simp] theorem ret_bind (a : α) (f : α → Program Op Res ω β) : ret a >>= f = f a := rfl

@[simp] theorem raise_bind (e : ω) (f : α → Program Op Res ω β) :
    (raise e : Program Op Res ω α) >>= f = raise e := rfl

@[simp] theorem call_bind (op : Op) (next : Res op → Program Op Res ω α)
    (f : α → Program Op Res ω β) : call op next >>= f = call op fun r => next r >>= f := rfl

instance : LawfulMonad (Program Op Res ω) := by
  refine LawfulMonad.mk' _ (fun p => ?_) (fun _ _ => rfl) (fun p f g => ?_)
  · show p >>= ret = p
    induction p with
    | ret value => rfl
    | raise error => rfl
    | call op next ih => exact congrArg (call op) (funext ih)
  · induction p with
    | ret value => rfl
    | raise error => rfl
    | call op next ih => exact congrArg (call op) (funext ih)

/-- One operation and its answer. -/
def perform (op : Op) : Program Op Res ω (Res op) := call op ret

@[simp] theorem perform_bind (op : Op) (f : Res op → Program Op Res ω β) :
    perform op >>= f = call op f := rfl

/-! ## What a program may do

These predicates look at every path through the tree. Where it matters which answers an
operation can give, `allows` says so. -/

/-- With answers that `allows` admits, every operation called satisfies `ok`, and the program
raises only if `fails` holds. -/
def Obeys (allows : (op : Op) → Res op → Prop) (ok : Op → Prop) (fails : Prop) :
    Program Op Res ω α → Prop
  | ret _ => True
  | raise _ => fails
  | call op next => ok op ∧ ∀ r, allows op r → (next r).Obeys allows ok fails

/-- Every operation called satisfies `ok`, whatever the answers. -/
abbrev Each (ok : Op → Prop) : Program Op Res ω α → Prop := Obeys (fun _ _ => True) ok True

/-- The program may call an operation of `hit` before it calls one of `stops`. -/
def Reaches (stops hit : Op → Prop) : Program Op Res ω α → Prop
  | ret _ | raise _ => False
  | call op next => hit op ∨ ¬ stops op ∧ ∃ r, (next r).Reaches stops hit

/-- The program returns right after an operation of `fin`, and only then. -/
def Ends (fin : Op → Prop) : Program Op Res ω α → Prop
  | ret _ => False
  | raise _ => True
  | call op next =>
      (fin op ∧ ∀ r, ∃ a, next r = ret a) ∨ (¬ fin op ∧ ∀ r, (next r).Ends fin)

/-- Whatever the answers, a value that the program returns satisfies `Q`. -/
def Yields (Q : α → Prop) : Program Op Res ω α → Prop
  | ret a => Q a
  | raise _ => True
  | call _ next => ∀ r, (next r).Yields Q

section Paths
variable {allows : (op : Op) → Res op → Prop} {ok stops hit fin : Op → Prop} {fails : Prop}

theorem Obeys.mono {ok' : Op → Prop} {fails' : Prop} (hok : ∀ op, ok op → ok' op)
    (hfails : fails → fails') {p : Program Op Res ω α} (hp : p.Obeys allows ok fails) :
    p.Obeys allows ok' fails' := by
  induction p with
  | ret a => trivial
  | raise e => exact hfails hp
  | call op next ih => exact ⟨hok op hp.1, fun r hr => ih r (hp.2 r hr)⟩

theorem Obeys.bind {p : Program Op Res ω α} {f : α → Program Op Res ω β}
    (hp : p.Obeys allows ok fails) (hf : ∀ a, (f a).Obeys allows ok fails) :
    (p >>= f).Obeys allows ok fails := by
  induction p with
  | ret a => exact hf a
  | raise e => exact hp
  | call op next ih => exact ⟨hp.1, fun r hr => ih r (hp.2 r hr)⟩

theorem Obeys.forM {items : List α} {f : α → Program Op Res ω Unit}
    (hf : ∀ item ∈ items, (f item).Obeys allows ok fails) :
    (items.forM f).Obeys allows ok fails := by
  induction items with
  | nil => trivial
  | cons item items ih =>
    exact (hf item List.mem_cons_self).bind fun _ =>
      ih fun later hm => hf later (List.mem_cons_of_mem _ hm)

theorem Reaches.bind {p : Program Op Res ω α} {f : α → Program Op Res ω β}
    (h : (p >>= f).Reaches stops hit) :
    p.Reaches stops hit ∨ ∃ a, (f a).Reaches stops hit := by
  induction p with
  | ret a => exact .inr ⟨a, h⟩
  | raise e => exact absurd h id
  | call op next ih =>
    rcases h with hop | ⟨hstops, r, h⟩
    · exact .inl (.inl hop)
    · exact (ih r h).imp_left fun h => .inr ⟨hstops, r, h⟩

theorem Reaches.forM {items : List α} {f : α → Program Op Res ω Unit}
    (h : (items.forM f).Reaches stops hit) : ∃ item ∈ items, (f item).Reaches stops hit := by
  induction items with
  | nil => exact absurd h id
  | cons item items ih =>
    rcases Reaches.bind h with h | ⟨-, h⟩
    · exact ⟨item, List.mem_cons_self, h⟩
    · obtain ⟨later, hm, h⟩ := ih h
      exact ⟨later, List.mem_cons_of_mem _ hm, h⟩

theorem Reaches.exists_hit {p : Program Op Res ω α} (h : p.Reaches stops hit)
    (hp : p.Each ok) : ∃ op, ok op ∧ hit op := by
  induction p with
  | ret a => exact absurd h id
  | raise e => exact absurd h id
  | call op next ih =>
    rcases h with hop | ⟨-, r, h⟩
    · exact ⟨op, hp.1, hop⟩
    · exact ih r h (hp.2 r trivial)

theorem Ends.bind {p : Program Op Res ω α} {f : α → Program Op Res ω β}
    (hp : p.Each fun op => ¬ fin op) (hf : ∀ a, (f a).Ends fin) : (p >>= f).Ends fin := by
  induction p with
  | ret a => exact hf a
  | raise e => trivial
  | call op next ih => exact .inr ⟨hp.1, fun r => ih r (hp.2 r trivial)⟩

end Paths

section Yields
variable {Q : α → Prop} {R : β → Prop}

theorem Yields.any (p : Program Op Res ω α) : p.Yields fun _ => True := by
  induction p with
  | ret a => trivial
  | raise e => trivial
  | call op next ih => exact ih

theorem Yields.bind {p : Program Op Res ω α} {f : α → Program Op Res ω β} (hp : p.Yields Q)
    (hf : ∀ a, Q a → (f a).Yields R) : (p >>= f).Yields R := by
  induction p with
  | ret a => exact hf a hp
  | raise e => trivial
  | call op next ih => exact fun r => ih r (hp r)

theorem Yields.foldlM {items : List β} {f : α → β → Program Op Res ω α} {a : α} (ha : Q a)
    (hf : ∀ a item, Q a → (f a item).Yields Q) : (items.foldlM f a).Yields Q := by
  induction items generalizing a with
  | nil => exact ha
  | cons item items ih =>
    rw [List.foldlM_cons]
    exact (hf a item ha).bind fun _ h => ih h

end Yields

/-! ## Running to the end, or to a cut -/

section Run
variable (sem : (op : Op) → σ → Except ω (Res op × σ))

/-- What the program returns or raises, and the store it leaves. -/
def exec : Program Op Res ω α → σ → Except ω α × σ
  | ret a, s => (.ok a, s)
  | raise e, s => (.error e, s)
  | call op next, s =>
      match sem op s with
      | .error e => (.error e, s)
      | .ok (r, s') => exec (next r) s'

/-- Once the first part has returned, the second part runs from the store it leaves. -/
theorem exec_bind_of_ok {p : Program Op Res ω α} {f : α → Program Op Res ω β} {s s' : σ} {a : α}
    (h : p.exec sem s = (.ok a, s')) : (p >>= f).exec sem s = (f a).exec sem s' := by
  induction p generalizing s with
  | ret b =>
    cases h
    rfl
  | raise e => cases h
  | call op next ih =>
    rw [call_bind, exec]
    rw [exec] at h
    cases hop : sem op s with
    | error e => simp [hop] at h
    | ok result =>
      simp only [hop] at h ⊢
      exact ih result.1 h

/-- The store after at most `n` operations. -/
def cut : Nat → Program Op Res ω α → σ → σ
  | n + 1, call op next, s =>
      match sem op s with
      | .error _ => s
      | .ok (r, s') => cut n (next r) s'
  | _, _, s => s

/-- The stores at every cut satisfy `P`, the outcome and the last store satisfy `Q`. -/
def Safe (P : σ → Prop) (Q : Except ω α → σ → Prop) : Program Op Res ω α → σ → Prop
  | ret a, s => P s ∧ Q (.ok a) s
  | raise e, s => P s ∧ Q (.error e) s
  | call op next, s =>
      P s ∧ (∀ e, sem op s = .error e → Q (.error e) s) ∧
        ∀ r s', sem op s = .ok (r, s') → Safe P Q (next r) s'

variable {sem} {P : σ → Prop} {Q : Except ω α → σ → Prop}

theorem Safe.cut {p : Program Op Res ω α} {s : σ} (h : p.Safe sem P Q s) (n : Nat) :
    P (p.cut sem n s) := by
  induction p generalizing n s with
  | ret a => cases n <;> exact h.1
  | raise e => cases n <;> exact h.1
  | call op next ih =>
    obtain ⟨hstart, -, hnext⟩ := h
    cases n with
    | zero => exact hstart
    | succ n =>
      unfold Program.cut
      cases hop : sem op s with
      | error e => exact hstart
      | ok result => exact ih result.1 (hnext result.1 result.2 hop) n

theorem Safe.exec {p : Program Op Res ω α} {s : σ} (h : p.Safe sem P Q s) :
    Q (p.exec sem s).1 (p.exec sem s).2 := by
  induction p generalizing s with
  | ret a => exact h.2
  | raise e => exact h.2
  | call op next ih =>
    obtain ⟨-, herror, hnext⟩ := h
    unfold Program.exec
    cases hop : sem op s with
    | error e => exact herror e hop
    | ok result => exact ih result.1 (hnext result.1 result.2 hop)

theorem Safe.mono {P' : σ → Prop} {Q' : Except ω α → σ → Prop} (hP : ∀ s, P s → P' s)
    (hQ : ∀ result s, Q result s → Q' result s) {p : Program Op Res ω α} {s : σ}
    (h : p.Safe sem P Q s) : p.Safe sem P' Q' s := by
  induction p generalizing s with
  | ret a => exact ⟨hP s h.1, hQ _ s h.2⟩
  | raise e => exact ⟨hP s h.1, hQ _ s h.2⟩
  | call op next ih =>
    obtain ⟨hstart, herror, hnext⟩ := h
    exact ⟨hP s hstart, fun e he => hQ _ s (herror e he),
      fun r s' hop => ih r (hnext r s' hop)⟩

theorem Safe.yields {K : α → Prop} {p : Program Op Res ω α} {s : σ}
    (h : p.Safe sem P Q s) (hp : p.Yields K) :
    p.Safe sem P (fun result s => Q result s ∧ ∀ a, result = .ok a → K a) s := by
  induction p generalizing s with
  | ret a =>
    refine ⟨h.1, h.2, fun b hb => ?_⟩
    cases hb
    exact hp
  | raise e => exact ⟨h.1, h.2, fun _ hb => nomatch hb⟩
  | call op next ih =>
    obtain ⟨hstart, herror, hnext⟩ := h
    exact ⟨hstart, fun e he => ⟨herror e he, fun _ hb => nomatch hb⟩,
      fun r s' hop => ih r (hnext r s' hop) (hp r)⟩

/-- The rule for sequencing: the second part is safe from what the first part returns. -/
theorem Safe.bind {R : Except ω β → σ → Prop} {p : Program Op Res ω α}
    {f : α → Program Op Res ω β} {s : σ} (h : p.Safe sem P Q s)
    (hok : ∀ a s, Q (.ok a) s → (f a).Safe sem P R s)
    (herror : ∀ e s, Q (.error e) s → R (.error e) s) : (p >>= f).Safe sem P R s := by
  induction p generalizing s with
  | ret a => exact hok a s h.2
  | raise e => exact ⟨h.1, herror e s h.2⟩
  | call op next ih =>
    obtain ⟨hstart, hraise, hnext⟩ := h
    exact ⟨hstart, fun e he => herror e s (hraise e he), fun r s' hop => ih r (hnext r s' hop)⟩

/-- One operation that succeeds. -/
theorem Safe.of_ok {op : Op} {next : Res op → Program Op Res ω α} {r : Res op} {s s' : σ}
    (hop : sem op s = .ok (r, s')) (hs : P s) (hnext : (next r).Safe sem P Q s') :
    (call op next).Safe sem P Q s := by
  refine ⟨hs, fun e he => ?_, fun r' s'' hop' => ?_⟩
  · rw [hop] at he
    cases he
  · rw [hop] at hop'
    cases hop'
    exact hnext

/-- From `I` the program comes back to `I`, and its cuts satisfy `P`. -/
def Keeps (sem : (op : Op) → σ → Except ω (Res op × σ)) (P I : σ → Prop)
    (p : Program Op Res ω α) : Prop :=
  ∀ s, I s → p.Safe sem P (fun _ => I) s

variable {I : σ → Prop}

theorem Keeps.bind {p : Program Op Res ω α} {f : α → Program Op Res ω β}
    (hp : p.Keeps sem P I) (hf : ∀ a, (f a).Keeps sem P I) : (p >>= f).Keeps sem P I :=
  fun s hs => (hp s hs).bind (fun a s' hs' => hf a s' hs') fun _ _ hs' => hs'

theorem Keeps.forM (hI : ∀ s, I s → P s) {items : List α} {f : α → Program Op Res ω Unit}
    (hf : ∀ item, (f item).Keeps sem P I) : (items.forM f).Keeps sem P I := by
  induction items with
  | nil => exact fun s hs => ⟨hI s hs, hs⟩
  | cons item items ih => exact (hf item).bind fun _ => ih

/-- What every operation keeps, the program keeps. -/
theorem Each.keeps (hI : ∀ s, I s → P s) {ok : Op → Prop} {p : Program Op Res ω α} (hp : p.Each ok)
    (h : ∀ op s r s', ok op → I s → sem op s = .ok (r, s') → I s') : p.Keeps sem P I := by
  intro s hs
  induction p generalizing s with
  | ret a => exact ⟨hI s hs, hs⟩
  | raise e => exact ⟨hI s hs, hs⟩
  | call op next ih =>
    exact ⟨hI s hs, fun _ _ => hs, fun r s' hop =>
      ih r (hp.2 r trivial) s' (h op s r s' hp.1 hs hop)⟩

end Run

end Program

/-! ## Running together -/

/-- Programs over one store, each started for a call. -/
structure Pool (Op : Type) (Res : Op → Type) (ω σ κ : Type) where
  store : σ
  tasks : List (κ × Program Op Res ω Unit) := []

inductive PoolEvent (κ : Type) where
  | start (label : κ)
  | advance (task : Nat)

namespace Pool
open Program

variable {Op : Type} {Res : Op → Type} {ω σ κ : Type}
  (sem : (op : Op) → σ → Except ω (Res op × σ)) (launch : κ → Program Op Res ω Unit)

/-- A call is started, or a task takes its next operation. -/
def step (pool : Pool Op Res ω σ κ) : PoolEvent κ → Option (Pool Op Res ω σ κ)
  | .start label => some { pool with tasks := pool.tasks ++ [(label, launch label)] }
  | .advance task =>
      match pool.tasks[task]? with
      | some (label, .call op next) =>
          match sem op pool.store with
          | .error e => some { pool with tasks := pool.tasks.set task (label, raise e) }
          | .ok (r, store) => some { store, tasks := pool.tasks.set task (label, next r) }
      | _ => none

variable {sem launch} {pool pool' : Pool Op Res ω σ κ}

/-- What a step can do. -/
theorem step_cases {event : PoolEvent κ} (h : pool.step sem launch event = some pool') :
    (∃ label, event = .start label ∧
      pool' = { pool with tasks := pool.tasks ++ [(label, launch label)] }) ∨
    (∃ task label op next, event = .advance task ∧
      pool.tasks[task]? = some (label, .call op next) ∧
      ((∃ e, sem op pool.store = .error e ∧
          pool' = { pool with tasks := pool.tasks.set task (label, raise e) }) ∨
        ∃ r store, sem op pool.store = .ok (r, store) ∧
          pool' = { store, tasks := pool.tasks.set task (label, next r) })) := by
  cases event with
  | start label => exact .inl ⟨label, rfl, (Option.some.inj h).symm⟩
  | advance task =>
    right
    simp only [step] at h
    split at h
    · rename_i label op next htask
      split at h
      · rename_i e hop
        exact ⟨task, label, op, next, rfl, htask, .inl ⟨e, hop, (Option.some.inj h).symm⟩⟩
      · rename_i r store hop
        exact ⟨task, label, op, next, rfl, htask, .inr ⟨r, store, hop, (Option.some.inj h).symm⟩⟩
    · cases h

/-- A task other than the one that moves stays. -/
theorem mem_set_of_ne {tasks : List (κ × Program Op Res ω Unit)} {i : Nat}
    {old new entry : κ × Program Op Res ω Unit} (hold : tasks[i]? = some old)
    (hne : entry ≠ old) (hm : entry ∈ tasks) : entry ∈ tasks.set i new := by
  obtain ⟨j, hj⟩ := List.mem_iff_getElem?.mp hm
  refine List.mem_iff_getElem?.mpr ⟨j, ?_⟩
  have hij : i ≠ j := by
    rintro rfl
    exact hne (Option.some.inj (hj.symm.trans hold))
  rw [List.getElem?_set_ne hij, hj]

/-! An infinite schedule may idle between its steps. -/

section Schedule
variable {pools : Nat → Pool Op Res ω σ κ} {moves : Nat → Option (PoolEvent κ)}
  (hidle : ∀ n, moves n = none → pools (n + 1) = pools n)
  (hmove : ∀ n event, moves n = some event →
    (pools n).step sem launch event = some (pools (n + 1)))
include hidle hmove

/-- A step that is not its own leaves a task as it is. -/
theorem task_succ {n i : Nat} {entry : κ × Program Op Res ω Unit}
    (hentry : (pools n).tasks[i]? = some entry) (hother : moves n ≠ some (.advance i)) :
    (pools (n + 1)).tasks[i]? = some entry := by
  cases hm : moves n with
  | none => rw [hidle n hm, hentry]
  | some event =>
    rcases step_cases (hmove n event hm) with
      ⟨label, rfl, hpool⟩ | ⟨task, label, op, next, rfl, -, hpool⟩
    · rw [hpool]
      exact (List.getElem?_append_left (List.getElem?_eq_some_iff.mp hentry).1).trans hentry
    · have hne : task ≠ i := by
        rintro rfl
        exact hother hm
      rcases hpool with ⟨e, -, hpool⟩ | ⟨r, store, -, hpool⟩ <;>
        rw [hpool, List.getElem?_set_ne hne, hentry]

theorem task_of_le {n m i : Nat} {entry : κ × Program Op Res ω Unit} (hle : n ≤ m)
    (hentry : (pools n).tasks[i]? = some entry)
    (hother : ∀ k, n ≤ k → k < m → moves k ≠ some (.advance i)) :
    (pools m).tasks[i]? = some entry := by
  induction m, hle using Nat.le_induction with
  | base => exact hentry
  | succ m hnm ih =>
    have hm := ih fun k hnk hkm => hother k hnk (Nat.lt_succ_of_lt hkm)
    exact task_succ hidle hmove hm (hother m hnm (Nat.lt_succ_self m))

/-- A task that always moves again while it has operations left comes to its end. -/
theorem finishes_of_fair {i : Nat} (hfair : ∀ n label op next,
      (pools n).tasks[i]? = some (label, .call op next) → ∃ m, n ≤ m ∧ moves m = some (.advance i))
    {n : Nat} {label : κ} {p : Program Op Res ω Unit}
    (htask : (pools n).tasks[i]? = some (label, p)) :
    ∃ m, n ≤ m ∧ ((pools m).tasks[i]? = some (label, ret ()) ∨
      ∃ e, (pools m).tasks[i]? = some (label, raise e)) := by
  induction p generalizing n with
  | ret a => exact ⟨n, le_rfl, .inl htask⟩
  | raise e => exact ⟨n, le_rfl, .inr ⟨e, htask⟩⟩
  | call op next ih =>
    -- The first move of the task from here on.
    classical
    have hmoves := hfair n label op next htask
    obtain ⟨hle, hadvance⟩ := Nat.find_spec hmoves
    set m := Nat.find hmoves with hm
    have hnow : (pools m).tasks[i]? = some (label, .call op next) := by
      refine task_of_le hidle hmove hle htask fun k hnk hkm hk => ?_
      exact Nat.find_min hmoves hkm ⟨hnk, hk⟩
    have hlength := (List.getElem?_eq_some_iff.mp hnow).1
    rcases step_cases (hmove m _ hadvance) with
      ⟨label', habsurd, -⟩ | ⟨task, label', op', next', htaskeq, hold, hpool⟩
    · cases habsurd
    · cases htaskeq
      cases hold.symm.trans hnow
      rcases hpool with ⟨e, -, hpool⟩ | ⟨r, store, -, hpool⟩
      · refine ⟨m + 1, by omega, .inr ⟨e, ?_⟩⟩
        rw [hpool, List.getElem?_set_self hlength]
      · obtain ⟨last, hlast, hend⟩ := ih r (n := m + 1) (by
          rw [hpool, List.getElem?_set_self hlength])
        exact ⟨last, by omega, hend⟩

end Schedule

end Pool

end MiryFormal
