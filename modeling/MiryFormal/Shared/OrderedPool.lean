import Mathlib.Data.List.Nodup
import MiryFormal.Shared.Fallible
import MiryFormal.Shared.Folders
import MiryFormal.Shared.Runs

/-!
# Workers and an ordered consumer

Every job leaves a file under its key, or none, and a result. Workers take up the jobs in any
order. A consumer takes the results in the order of the jobs and may replace the file of the job
whose result it has. The process may be cut off at any moment and run again over the same folder.
-/

namespace MiryFormal

set_option autoImplicit false

structure PoolTask (Job Key File Result Acc : Type) where
  key : Job → Key
  /-- What a worker does. -/
  produce : Job → Except String (Option File × Result)
  /-- The consumer takes a result. -/
  accept : Acc → Result → Except String Acc
  /-- The consumer reads the file, and may replace it. -/
  revise : Acc → File → Except String (Option File × Acc)

inductive JobState (File Result : Type) where
  | waiting
  | running
  | done (outcome : Except String (Option File × Result))

inductive Consumer (File Acc : Type) where
  | off
  /-- Before the result of the job. -/
  | taking (index : Nat) (acc : Acc)
  /-- Before the file of the job is read. -/
  | reading (index : Nat) (acc : Acc)
  | replacing (index : Nat) (file : File) (acc : Acc)
  | finished (acc : Acc)
  /-- It has raised, and waits for the workers. -/
  | leaving

structure WorkPool (Key File Result Acc : Type) where
  folder : Folder Key File := Folder.empty
  jobs : Nat → JobState File Result := fun _ => .waiting
  consumer : Consumer File Acc := .off

inductive WorkEvent where
  | start
  | launch (index : Nat)
  | complete (index : Nat)
  /-- A worker raises before its file is in place. -/
  | fault (index : Nat)
  | take
  | read
  | replace
  | finish
  /-- The consumer raises. -/
  | raise
  | leave
  | crash

variable {Job Key File Result Acc : Type} [DecidableEq Key]

namespace PoolTask
variable (task : PoolTask Job Key File Result Acc)

/-! ## One job after the other -/

def runJob (state : Acc × Folder Key File) (job : Job) : Except String (Acc × Folder Key File) := do
  let (file, result) ← task.produce job
  let acc ← task.accept state.1 result
  match file with
  | none => return (acc, state.2)
  | some file =>
      let (revised, acc) ← task.revise acc file
      return (acc, state.2.write (task.key job) (revised.getD file))

def runAll (initial : Acc) (jobs : List Job) : Except String (Acc × Folder Key File) :=
  jobs.foldlM task.runJob (initial, Folder.empty)

/-- The consumer goes on with the next job. -/
def afterTake (index : Nat) (file : Option File) (acc : Acc) : Consumer File Acc :=
  match file with
  | none => .taking (index + 1) acc
  | some _ => .reading index acc

def afterRead (index : Nat) (revised : Option File) (acc : Acc) : Consumer File Acc :=
  match revised with
  | none => .taking (index + 1) acc
  | some file => .replacing index file acc

/-- The file of a worker is in place. -/
def placed (folder : Folder Key File) (key : Key) :
    Except String (Option File × Result) → Folder Key File
  | .ok (some file, _) => folder.write key file
  | _ => folder

inductive Step (initial : Acc) (jobs : List Job) :
    WorkPool Key File Result Acc → WorkEvent → WorkPool Key File Result Acc → Prop where
  | start {pool : WorkPool Key File Result Acc} (hoff : pool.consumer = .off) :
      Step initial jobs pool .start { folder := pool.folder, consumer := .taking 0 initial }
  | launch {pool : WorkPool Key File Result Acc} {index : Nat} (hindex : index < jobs.length)
      (hwaiting : pool.jobs index = .waiting) (hon : pool.consumer ≠ .off) :
      Step initial jobs pool (.launch index)
        { pool with jobs := Function.update pool.jobs index .running }
  | complete {pool : WorkPool Key File Result Acc} {index : Nat} {job : Job}
      (hjob : jobs[index]? = some job) (hrunning : pool.jobs index = .running) :
      Step initial jobs pool (.complete index) { pool with
        folder := placed pool.folder (task.key job) (task.produce job)
        jobs := Function.update pool.jobs index (.done (task.produce job)) }
  | fault {pool : WorkPool Key File Result Acc} {index : Nat} {error : String}
      (hrunning : pool.jobs index = .running) :
      Step initial jobs pool (.fault index)
        { pool with jobs := Function.update pool.jobs index (.done (.error error)) }
  | take {pool : WorkPool Key File Result Acc} {index : Nat} {job : Job} {acc next : Acc}
      {file : Option File} {result : Result} (htaking : pool.consumer = .taking index acc)
      (hjob : jobs[index]? = some job)
      (hdone : pool.jobs index = .done (.ok (file, result)))
      (haccept : task.accept acc result = .ok next) :
      Step initial jobs pool .take { pool with consumer := afterTake index file next }
  | read {pool : WorkPool Key File Result Acc} {index : Nat} {job : Job} {acc next : Acc} {file : File}
      {revised : Option File} (hreading : pool.consumer = .reading index acc)
      (hjob : jobs[index]? = some job) (hfile : pool.folder.read (task.key job) = some file)
      (hrevise : task.revise acc file = .ok (revised, next)) :
      Step initial jobs pool .read { pool with consumer := afterRead index revised next }
  | replace {pool : WorkPool Key File Result Acc} {index : Nat} {job : Job} {acc : Acc} {file : File}
      (hreplacing : pool.consumer = .replacing index file acc) (hjob : jobs[index]? = some job) :
      Step initial jobs pool .replace { pool with
        folder := pool.folder.write (task.key job) file
        consumer := .taking (index + 1) acc }
  | finish {pool : WorkPool Key File Result Acc} {index : Nat} {acc : Acc}
      (htaking : pool.consumer = .taking index acc) (hindex : index = jobs.length) :
      Step initial jobs pool .finish { pool with consumer := .finished acc }
  | raise {pool : WorkPool Key File Result Acc} (hon : pool.consumer ≠ .off) :
      Step initial jobs pool .raise { pool with consumer := .leaving }
  | leave {pool : WorkPool Key File Result Acc} (hleaving : pool.consumer = .leaving)
      (hidle : ∀ index, pool.jobs index ≠ .running) :
      Step initial jobs pool .leave { folder := pool.folder }
  | crash {pool : WorkPool Key File Result Acc} :
      Step initial jobs pool .crash { folder := pool.folder }

variable {task : PoolTask Job Key File Result Acc} {initial acc : Acc} {jobs : List Job}
  {pool after : WorkPool Key File Result Acc} {index : Nat} {job : Job}

/-! ## The jobs in order -/

theorem runJob_ok {state after : Acc × Folder Key File} (h : task.runJob state job = .ok after) :
    ∃ file result next, task.produce job = .ok (file, result) ∧
      task.accept state.1 result = .ok next ∧
      match file with
      | none => after = (next, state.2)
      | some file => ∃ revised last, task.revise next file = .ok (revised, last) ∧
          after = (last, state.2.write (task.key job) (revised.getD file)) := by
  unfold runJob at h
  obtain ⟨⟨file, result⟩, hproduce, h⟩ := exists_of_bind_ok h
  obtain ⟨next, haccept, h⟩ := exists_of_bind_ok h
  refine ⟨file, result, next, hproduce, haccept, ?_⟩
  cases file with
  | none => exact (Except.ok.inj h).symm
  | some file =>
    obtain ⟨⟨revised, last⟩, hrevise, h⟩ := exists_of_bind_ok h
    exact ⟨revised, last, hrevise, (Except.ok.inj h).symm⟩

theorem runJob_none {state : Acc × Folder Key File} {result : Result} {next : Acc}
    (hproduce : task.produce job = .ok (none, result))
    (haccept : task.accept state.1 result = .ok next) :
    task.runJob state job = .ok (next, state.2) := by
  unfold runJob
  rw [hproduce]
  simp only [bind, Except.bind, haccept]
  rfl

theorem runJob_some {state : Acc × Folder Key File} {result : Result} {next last : Acc}
    {file : File} {revised : Option File} (hproduce : task.produce job = .ok (some file, result))
    (haccept : task.accept state.1 result = .ok next)
    (hrevise : task.revise next file = .ok (revised, last)) :
    task.runJob state job = .ok (last, state.2.write (task.key job) (revised.getD file)) := by
  unfold runJob
  rw [hproduce]
  simp only [bind, Except.bind, haccept, hrevise]
  rfl

/-- Only the files of the jobs are written. -/
theorem foldlM_runJob_read {key : Key} {state last : Acc × Folder Key File}
    (h : jobs.foldlM task.runJob state = .ok last) (hkey : ∀ job ∈ jobs, task.key job ≠ key) :
    last.2.read key = state.2.read key := by
  induction jobs generalizing state with
  | nil =>
    rw [← Except.ok.inj h]
  | cons job jobs ih =>
    rw [List.foldlM_cons] at h
    obtain ⟨next, hjob, h⟩ := exists_of_bind_ok h
    rw [ih h fun other hm => hkey other (List.mem_cons_of_mem _ hm)]
    obtain ⟨file, result, accepted, -, -, hafter⟩ := runJob_ok hjob
    cases file with
    | none => rw [hafter]
    | some file =>
      obtain ⟨revised, last', -, rfl⟩ := hafter
      rw [Folder.read_write, if_neg (hkey job List.mem_cons_self)]

theorem runAll_read {key : Key} {files : Folder Key File}
    (h : task.runAll initial jobs = .ok (acc, files)) (hkey : ∀ job ∈ jobs, task.key job ≠ key) :
    files.read key = none :=
  (foldlM_runJob_read h hkey).trans (Folder.read_empty key)

theorem runAll_concat {files : Folder Key File} (h : task.runAll initial jobs = .ok (acc, files))
    (job : Job) : task.runAll initial (jobs ++ [job]) = task.runJob (acc, files) job := by
  unfold runAll at h ⊢
  rw [List.foldlM_append, h]
  simp only [bind, Except.bind, List.foldlM_cons, List.foldlM_nil]
  cases task.runJob (acc, files) job <;> rfl

theorem take_next (hjob : jobs[index]? = some job) :
    jobs.take (index + 1) = jobs.take index ++ [job] := by
  rw [List.take_add_one, hjob]
  rfl

theorem mem_take (hjob : job ∈ jobs.take index) : ∃ i, i < index ∧ jobs[i]? = some job := by
  obtain ⟨i, hi⟩ := List.mem_iff_getElem?.mp hjob
  by_cases hlt : i < index
  · rw [List.getElem?_take_of_lt hlt] at hi
    exact ⟨i, hlt, hi⟩
  · rw [List.getElem?_eq_none ((List.length_take_le _ _).trans (not_lt.mp hlt))] at hi
    exact nomatch hi

section Keys
variable (hkeys : (jobs.map task.key).Nodup)
include hkeys

omit [DecidableEq Key] in
theorem key_ne {i j : Nat} {first second : Job} (hi : jobs[i]? = some first)
    (hj : jobs[j]? = some second) (hne : i ≠ j) : task.key first ≠ task.key second := by
  intro heq
  apply hne
  have hlt : i < (jobs.map task.key).length := by
    rw [List.length_map]
    exact (List.getElem?_eq_some_iff.mp hi).1
  refine (List.getElem?_inj hlt hkeys).mp ?_
  rw [List.getElem?_map, List.getElem?_map, hi, hj, Option.map_some, Option.map_some, heq]

omit [DecidableEq Key] in
theorem key_ne_of_mem_take {other : Job} (hother : other ∈ jobs.take index)
    (hjob : jobs[index]? = some job) : task.key other ≠ task.key job := by
  obtain ⟨i, hlt, hi⟩ := mem_take hother
  exact key_ne hkeys hi hjob (Nat.ne_of_lt hlt)

end Keys

/-! ## What every step keeps -/

/-- The file is what the worker of the job left, or what the consumer made of it. -/
def LeftBy (task : PoolTask Job Key File Result Acc) (jobs : List Job) (key : Key) (file : File) :
    Prop :=
  ∃ job ∈ jobs, task.key job = key ∧ ∃ left result, task.produce job = .ok (some left, result) ∧
    (file = left ∨ ∃ acc next, task.revise acc left = .ok (some file, next))

/-- The consumer has done with the jobs before `index`. -/
structure Reached (task : PoolTask Job Key File Result Acc) (initial : Acc) (jobs : List Job)
    (index : Nat) (acc : Acc) (pool : WorkPool Key File Result Acc) : Prop where
  le : index ≤ jobs.length
  done : ∀ i, i < index → ∃ outcome, pool.jobs i = .done outcome
  files : ∃ files, task.runAll initial (jobs.take index) = .ok (acc, files) ∧
    ∀ job ∈ jobs.take index, pool.folder.read (task.key job) = files.read (task.key job)

/-- The files of the jobs from `index` on are as their workers left them. -/
def Untouched (task : PoolTask Job Key File Result Acc) (jobs : List Job) (index : Nat)
    (pool : WorkPool Key File Result Acc) : Prop :=
  ∀ i job file result, index ≤ i → jobs[i]? = some job →
    pool.jobs i = .done (.ok (some file, result)) → pool.folder.read (task.key job) = some file

/-- The consumer has taken the result of a job that has left a file. -/
structure Took (task : PoolTask Job Key File Result Acc) (initial : Acc) (jobs : List Job)
    (index : Nat) (job : Job) (file : File) (next : Acc)
    (pool : WorkPool Key File Result Acc) : Prop where
  job : jobs[index]? = some job
  untouched : Untouched task jobs index pool
  accepted : ∃ acc result, Reached task initial jobs index acc pool ∧
    pool.jobs index = .done (.ok (some file, result)) ∧ task.accept acc result = .ok next

/-- Where the consumer is. -/
def At (task : PoolTask Job Key File Result Acc) (initial : Acc) (jobs : List Job)
    (pool : WorkPool Key File Result Acc) : Prop :=
  match pool.consumer with
  | .off | .leaving => True
  | .taking index acc => Reached task initial jobs index acc pool ∧ Untouched task jobs index pool
  | .reading index acc => ∃ job file, Took task initial jobs index job file acc pool
  | .replacing index revised acc => ∃ job file next, Took task initial jobs index job file next pool ∧
      task.revise next file = .ok (some revised, acc)
  | .finished acc => Reached task initial jobs jobs.length acc pool

structure Sound (task : PoolTask Job Key File Result Acc) (initial : Acc) (jobs : List Job)
    (pool : WorkPool Key File Result Acc) : Prop where
  folder : pool.folder.All (task.LeftBy jobs)
  outcomes : ∀ i job file result, jobs[i]? = some job →
    pool.jobs i = .done (.ok (file, result)) → task.produce job = .ok (file, result)
  consumer : task.At initial jobs pool

section Keep
variable (hkeys : (jobs.map task.key).Nodup)

/-- What the consumer leaves for a job, as one job after the other does it. -/
def settle (folder : Folder Key File) (key : Key) : Option File → Folder Key File
  | none => folder
  | some file => folder.write key file

/-- A worker moves on with the job `i`, and the consumer stays where it is. -/
structure Moves (task : PoolTask Job Key File Result Acc) (jobs : List Job) (i : Nat)
    (pool after : WorkPool Key File Result Acc) : Prop where
  pending : ∀ outcome, pool.jobs i ≠ .done outcome
  others : ∀ j, j ≠ i → after.jobs j = pool.jobs j
  folder : ∀ j job, j ≠ i → jobs[j]? = some job →
    after.folder.read (task.key job) = pool.folder.read (task.key job)
  placed : ∀ job file result, jobs[i]? = some job →
    after.jobs i = .done (.ok (some file, result)) → after.folder.read (task.key job) = some file
  consumer : after.consumer = pool.consumer

theorem Reached.moves {i : Nat} (h : Reached task initial jobs index acc pool)
    (hmoves : Moves task jobs i pool after) : Reached task initial jobs index acc after := by
  have hne : ∀ j, j < index → j ≠ i := by
    intro j hlt heq
    obtain ⟨outcome, hdone⟩ := h.done j hlt
    rw [heq] at hdone
    exact hmoves.pending outcome hdone
  obtain ⟨files, hrun, hread⟩ := h.files
  refine ⟨h.le, fun j hlt => ?_, files, hrun, fun job hm => ?_⟩
  · rw [hmoves.others j (hne j hlt)]
    exact h.done j hlt
  · obtain ⟨j, hlt, hj⟩ := mem_take hm
    rw [hmoves.folder j job (hne j hlt) hj]
    exact hread job hm

theorem Untouched.moves {i : Nat} (h : Untouched task jobs index pool)
    (hmoves : Moves task jobs i pool after) : Untouched task jobs index after := by
  intro j job file result hle hj hdone
  by_cases heq : j = i
  · rw [heq] at hj hdone
    exact hmoves.placed job file result hj hdone
  · rw [hmoves.others j heq] at hdone
    rw [hmoves.folder j job heq hj]
    exact h j job file result hle hj hdone

theorem Took.moves {i : Nat} {file : File} (h : Took task initial jobs index job file acc pool)
    (hmoves : Moves task jobs i pool after) :
    Took task initial jobs index job file acc after := by
  obtain ⟨before, result, hreached, hdone, haccept⟩ := h.accepted
  have hne : index ≠ i := by
    intro heq
    rw [heq] at hdone
    exact hmoves.pending _ hdone
  refine ⟨h.job, h.untouched.moves hmoves, before, result, hreached.moves hmoves, ?_, haccept⟩
  rw [hmoves.others index hne]
  exact hdone

theorem At.moves {i : Nat} (h : task.At initial jobs pool)
    (hmoves : Moves task jobs i pool after) : task.At initial jobs after := by
  unfold At at h ⊢
  rw [hmoves.consumer]
  cases hconsumer : pool.consumer with
  | off => trivial
  | taking index acc =>
    rw [hconsumer] at h
    exact ⟨h.1.moves hmoves, h.2.moves hmoves⟩
  | reading index acc =>
    rw [hconsumer] at h
    obtain ⟨job, file, htook⟩ := h
    exact ⟨job, file, htook.moves hmoves⟩
  | replacing index revised acc =>
    rw [hconsumer] at h
    obtain ⟨job, file, next, htook, hrevise⟩ := h
    exact ⟨job, file, next, htook.moves hmoves, hrevise⟩
  | finished acc =>
    rw [hconsumer] at h
    exact Reached.moves h hmoves
  | leaving => trivial

theorem Untouched.mono (h : Untouched task jobs index pool) {later : Nat} (hle : index ≤ later) :
    Untouched task jobs later pool :=
  fun i job file result hi => h i job file result (hle.trans hi)

include hkeys

/-- A job that leaves no file has none. -/
theorem Sound.read_none (h : task.Sound initial jobs pool) (hjob : jobs[index]? = some job)
    {result : Result} (hproduce : task.produce job = .ok (none, result)) :
    pool.folder.read (task.key job) = none := by
  cases hread : pool.folder.read (task.key job) with
  | none => rfl
  | some file =>
    obtain ⟨other, hm, hkey, left, result', hleft, -⟩ := h.folder _ _ hread
    obtain ⟨i, hi⟩ := List.mem_iff_getElem?.mp hm
    by_cases heq : i = index
    · rw [heq, hjob] at hi
      rw [← Option.some.inj hi, hproduce] at hleft
      exact nomatch hleft
    · exact absurd hkey (key_ne hkeys hi hjob heq)

/-- The consumer has done with one more job. -/
theorem Reached.next {last : Acc} (content : Option File)
    (h : Reached task initial jobs index acc pool) (hjob : jobs[index]? = some job)
    (hdone : ∃ outcome, pool.jobs index = .done outcome)
    (hrun : ∀ files, task.runJob (acc, files) job = .ok (last, settle files (task.key job) content))
    (hjobs : after.jobs = pool.jobs)
    (hothers : ∀ other ∈ jobs.take index,
      after.folder.read (task.key other) = pool.folder.read (task.key other))
    (hself : after.folder.read (task.key job) = content) :
    Reached task initial jobs (index + 1) last after := by
  obtain ⟨files, hfiles, hread⟩ := h.files
  refine ⟨(List.getElem?_eq_some_iff.mp hjob).1, fun i hlt => ?_,
    settle files (task.key job) content, ?_, fun other hm => ?_⟩
  · rw [hjobs]
    rcases Nat.lt_succ_iff_lt_or_eq.mp hlt with hlt | rfl
    · exact h.done i hlt
    · exact hdone
  · rw [take_next hjob, runAll_concat hfiles]
    exact hrun files
  · rw [take_next hjob] at hm
    rcases List.mem_append.mp hm with hm | hm
    · have hne := key_ne_of_mem_take hkeys hm hjob
      rw [hothers other hm, hread other hm]
      cases content with
      | none => rfl
      | some file => rw [settle, Folder.read_write, if_neg hne.symm]
    · rw [List.mem_singleton.mp hm, hself]
      cases content with
      | none =>
        exact (runAll_read hfiles fun other hm => key_ne_of_mem_take hkeys hm hjob).symm
      | some file => exact (Folder.read_write_self ..).symm

/-! Workers. -/

omit hkeys in
theorem moves_same_folder {i : Nat} {state : JobState File Result}
    (hpending : ∀ outcome, pool.jobs i ≠ .done outcome)
    (hstate : ∀ file result, state ≠ .done (.ok (some file, result))) :
    Moves task jobs i pool { pool with jobs := Function.update pool.jobs i state } where
  pending := hpending
  others j hne := Function.update_of_ne hne ..
  folder _ _ _ _ := rfl
  placed job file result _ hdone := by
    change Function.update pool.jobs i state i = _ at hdone
    rw [Function.update_self] at hdone
    exact absurd hdone (hstate file result)
  consumer := rfl

omit hkeys in
theorem outcomes_update {i : Nat} (state : JobState File Result)
    (h : task.Sound initial jobs pool)
    (hstate : ∀ job file result, jobs[i]? = some job → state = .done (.ok (file, result)) →
      task.produce job = .ok (file, result)) :
    ∀ j job file result, jobs[j]? = some job →
      Function.update pool.jobs i state j = .done (.ok (file, result)) →
      task.produce job = .ok (file, result) := by
  intro j job file result hj hdone
  by_cases heq : j = i
  · rw [heq, Function.update_self] at hdone
    rw [heq] at hj
    exact hstate job file result hj hdone
  · rw [Function.update_of_ne heq] at hdone
    exact h.outcomes j job file result hj hdone

omit hkeys in
theorem Sound.launch (h : task.Sound initial jobs pool) {i : Nat}
    (hwaiting : pool.jobs i = .waiting) :
    task.Sound initial jobs { pool with jobs := Function.update pool.jobs i .running } := by
  refine ⟨h.folder, outcomes_update _ h fun _ _ _ _ heq => (nomatch heq), h.consumer.moves
    (moves_same_folder (fun outcome heq => ?_) fun _ _ heq => nomatch heq)⟩
  rw [hwaiting] at heq
  exact nomatch heq

omit hkeys in
theorem Sound.fault (h : task.Sound initial jobs pool) {i : Nat} {error : String}
    (hrunning : pool.jobs i = .running) :
    task.Sound initial jobs
      { pool with jobs := Function.update pool.jobs i (.done (.error error)) } := by
  refine ⟨h.folder, outcomes_update _ h fun _ _ _ _ heq => (nomatch heq), h.consumer.moves
    (moves_same_folder (fun outcome heq => ?_) fun _ _ heq => nomatch heq)⟩
  rw [hrunning] at heq
  exact nomatch heq

omit hkeys in
theorem placed_cases (folder : Folder Key File) (key : Key)
    (outcome : Except String (Option File × Result)) :
    (∃ file result, outcome = .ok (some file, result) ∧
      placed folder key outcome = folder.write key file) ∨
    (∀ file result, outcome ≠ .ok (some file, result)) ∧ placed folder key outcome = folder := by
  match outcome with
  | .ok (some file, result) => exact .inl ⟨file, result, rfl, rfl⟩
  | .ok (none, result) => exact .inr ⟨nofun, rfl⟩
  | .error e => exact .inr ⟨nofun, rfl⟩

theorem Sound.complete (h : task.Sound initial jobs pool) {i : Nat} (hjob : jobs[i]? = some job)
    (hrunning : pool.jobs i = .running) : task.Sound initial jobs { pool with
      folder := placed pool.folder (task.key job) (task.produce job)
      jobs := Function.update pool.jobs i (.done (task.produce job)) } := by
  have hpending : ∀ outcome, pool.jobs i ≠ .done outcome := by
    intro outcome heq
    rw [hrunning] at heq
    exact nomatch heq
  have houtcomes := outcomes_update (.done (task.produce job)) h
    fun other file result hother hdone => by
      rw [hjob] at hother
      rw [← Option.some.inj hother]
      exact JobState.done.inj hdone
  rcases placed_cases pool.folder (task.key job) (task.produce job) with
    ⟨file, result, hproduce, hplaced⟩ | ⟨hnone, hplaced⟩
  · rw [hplaced]
    have hmoves : Moves task jobs i pool { pool with
        folder := pool.folder.write (task.key job) file
        jobs := Function.update pool.jobs i (.done (task.produce job)) } := by
      refine ⟨hpending, fun j hne => Function.update_of_ne hne .., fun j other hne hj => ?_,
        fun other file' result' hother hdone => ?_, rfl⟩
      · exact (Folder.read_write ..).trans (if_neg (key_ne hkeys hjob hj (Ne.symm hne)))
      · change Function.update pool.jobs i _ i = _ at hdone
        rw [Function.update_self, hproduce] at hdone
        rw [hjob] at hother
        cases hdone
        rw [← Option.some.inj hother]
        exact Folder.read_write_self ..
    refine ⟨h.folder.write ?_, houtcomes, h.consumer.moves hmoves⟩
    exact ⟨job, List.mem_of_getElem? hjob, rfl, file, result, hproduce, .inl rfl⟩
  · rw [hplaced]
    refine ⟨h.folder, houtcomes, h.consumer.moves (moves_same_folder hpending ?_)⟩
    intro file result heq
    exact hnone file result (JobState.done.inj heq)

/-! The consumer. -/

omit hkeys in
theorem Sound.restart (h : task.Sound initial jobs pool) :
    task.Sound initial jobs { folder := pool.folder, consumer := .taking 0 initial } :=
  ⟨h.folder, fun _ _ _ _ _ heq => (nomatch heq),
    ⟨⟨Nat.zero_le _, fun _ hlt => absurd hlt (Nat.not_lt_zero _), Folder.empty, rfl,
      fun _ hm => absurd hm List.not_mem_nil⟩, fun _ _ _ _ _ _ heq => nomatch heq⟩⟩

omit hkeys in
theorem Sound.stopped (h : task.Sound initial jobs pool) :
    task.Sound initial jobs { folder := pool.folder } :=
  ⟨h.folder, fun _ _ _ _ _ heq => (nomatch heq), trivial⟩

theorem Sound.take (h : task.Sound initial jobs pool) {next : Acc} {file : Option File}
    {result : Result} (htaking : pool.consumer = .taking index acc)
    (hjob : jobs[index]? = some job) (hdone : pool.jobs index = .done (.ok (file, result)))
    (haccept : task.accept acc result = .ok next) :
    task.Sound initial jobs { pool with consumer := afterTake index file next } := by
  have hat := h.consumer
  unfold At at hat
  rw [htaking] at hat
  obtain ⟨hreached, huntouched⟩ := hat
  have hproduce := h.outcomes index job file result hjob hdone
  refine ⟨h.folder, h.outcomes, ?_⟩
  cases file with
  | none =>
    refine ⟨?_, huntouched.mono (Nat.le_succ index)⟩
    have hnone := h.read_none hkeys hjob hproduce
    exact hreached.next hkeys none hjob ⟨_, hdone⟩ (fun files => runJob_none hproduce haccept) rfl
      (fun _ _ => rfl) hnone
  | some file =>
    exact ⟨job, file, hjob, huntouched, acc, result, ⟨hreached.le, hreached.done, hreached.files⟩,
      hdone, haccept⟩

theorem Sound.read (h : task.Sound initial jobs pool) {next : Acc} {file : File}
    {revised : Option File} (hreading : pool.consumer = .reading index acc)
    (hjob : jobs[index]? = some job) (hfile : pool.folder.read (task.key job) = some file)
    (hrevise : task.revise acc file = .ok (revised, next)) :
    task.Sound initial jobs { pool with consumer := afterRead index revised next } := by
  have hat := h.consumer
  unfold At at hat
  rw [hreading] at hat
  obtain ⟨taken, left, htook⟩ := hat
  obtain ⟨before, result, hreached, hdone, haccept⟩ := htook.accepted
  obtain rfl : taken = job := Option.some.inj (htook.job.symm.trans hjob)
  obtain rfl : left = file := by
    have hleft := htook.untouched index taken left result le_rfl hjob hdone
    exact Option.some.inj (hleft.symm.trans hfile)
  have hproduce := h.outcomes index taken _ result hjob hdone
  refine ⟨h.folder, h.outcomes, ?_⟩
  cases revised with
  | none =>
    refine ⟨?_, htook.untouched.mono (Nat.le_succ index)⟩
    exact hreached.next hkeys (some left) hjob ⟨_, hdone⟩
      (fun files => runJob_some hproduce haccept hrevise) rfl (fun _ _ => rfl) hfile
  | some file =>
    exact ⟨taken, left, acc, ⟨hjob, htook.untouched, before, result,
      ⟨hreached.le, hreached.done, hreached.files⟩, hdone, haccept⟩, hrevise⟩

theorem Sound.replace (h : task.Sound initial jobs pool) {file : File}
    (hreplacing : pool.consumer = .replacing index file acc) (hjob : jobs[index]? = some job) :
    task.Sound initial jobs { pool with
      folder := pool.folder.write (task.key job) file
      consumer := .taking (index + 1) acc } := by
  have hat := h.consumer
  unfold At at hat
  rw [hreplacing] at hat
  obtain ⟨taken, left, next, htook, hrevise⟩ := hat
  obtain ⟨before, result, hreached, hdone, haccept⟩ := htook.accepted
  obtain rfl : taken = job := Option.some.inj (htook.job.symm.trans hjob)
  have hproduce := h.outcomes index taken _ result hjob hdone
  have hothers : ∀ i other, i ≠ index → jobs[i]? = some other →
      (pool.folder.write (task.key taken) file).read (task.key other) =
        pool.folder.read (task.key other) := fun i other hne hother =>
    (Folder.read_write ..).trans (if_neg (key_ne hkeys hjob hother (Ne.symm hne)))
  refine ⟨h.folder.write ?_, h.outcomes, ?_, fun i other content result' hle hother hcontent => ?_⟩
  · exact ⟨taken, List.mem_of_getElem? hjob, rfl, left, result, hproduce, .inr ⟨next, acc, hrevise⟩⟩
  · refine hreached.next hkeys (some file) hjob ⟨_, hdone⟩
      (fun files => runJob_some hproduce haccept hrevise) rfl (fun other hm => ?_)
      (Folder.read_write_self ..)
    obtain ⟨i, hlt, hi⟩ := mem_take hm
    exact hothers i other (Nat.ne_of_lt hlt) hi
  · have hread := htook.untouched i other content result' ((Nat.le_succ index).trans hle) hother
      hcontent
    exact (hothers i other (Nat.ne_of_gt hle) hother).trans hread

omit hkeys in
theorem Sound.finish (h : task.Sound initial jobs pool)
    (htaking : pool.consumer = .taking index acc) (hindex : index = jobs.length) :
    task.Sound initial jobs { pool with consumer := .finished acc } := by
  have hat := h.consumer
  unfold At at hat
  rw [htaking, hindex] at hat
  exact ⟨h.folder, h.outcomes, ⟨hat.1.le, hat.1.done, hat.1.files⟩⟩

theorem Step.sound {event : WorkEvent} (hstep : task.Step initial jobs pool event after)
    (h : task.Sound initial jobs pool) : task.Sound initial jobs after := by
  cases hstep with
  | start => exact h.restart
  | launch _ hwaiting _ => exact h.launch hwaiting
  | complete hjob hrunning => exact h.complete hkeys hjob hrunning
  | fault hrunning => exact h.fault hrunning
  | take htaking hjob hdone haccept => exact h.take hkeys htaking hjob hdone haccept
  | read hreading hjob hfile hrevise => exact h.read hkeys hreading hjob hfile hrevise
  | replace hreplacing hjob => exact h.replace hkeys hreplacing hjob
  | finish htaking hindex => exact h.finish htaking hindex
  | raise => exact ⟨h.folder, h.outcomes, trivial⟩
  | leave => exact h.stopped
  | crash => exact h.stopped

omit hkeys in
/-- What the consumer has at the end is what one job after the other gives. -/
theorem Sound.finished (h : task.Sound initial jobs pool) (hfinished : pool.consumer = .finished acc) :
    task.runAll initial jobs = .ok (acc, pool.folder) := by
  have hat := h.consumer
  unfold At at hat
  rw [hfinished] at hat
  obtain ⟨files, hrun, hread⟩ := hat.files
  rw [List.take_length] at hrun hread
  rw [hrun]
  congr 2
  ext1 key
  by_cases hkey : ∃ job ∈ jobs, task.key job = key
  · obtain ⟨job, hm, rfl⟩ := hkey
    exact (hread job hm).symm
  · rw [runAll_read hrun fun job hm heq => hkey ⟨job, hm, heq⟩]
    cases hfile : pool.folder.read key with
    | none => rfl
    | some file =>
      obtain ⟨job, hm, heq, -⟩ := h.folder key file hfile
      exact absurd ⟨job, hm, heq⟩ hkey

end Keep

/-! ## An undisturbed run -/

/-- The jobs from `index` on have not been taken up. -/
def Ahead (index : Nat) (pool : WorkPool Key File Result Acc) : Prop :=
  ∀ i, index ≤ i → pool.jobs i = .waiting

/-- A worker takes up the job and leaves what it produces. -/
theorem exists_produced (initial : Acc) (hjob : jobs[index]? = some job)
    (hon : pool.consumer ≠ .off) (hahead : Ahead index pool) :
    ∃ after, Run (task.Step initial jobs) pool [.launch index, .complete index] after ∧
      after.consumer = pool.consumer ∧ after.jobs index = .done (task.produce job) ∧
      after.folder = placed pool.folder (task.key job) (task.produce job) ∧
      Ahead (index + 1) after := by
  refine ⟨_, .cons (.launch (List.getElem?_eq_some_iff.mp hjob).1 (hahead index le_rfl) hon) <|
    .cons (.complete hjob (Function.update_self ..)) (.nil _), rfl, Function.update_self .., rfl,
    fun i hle => ?_⟩
  have hne : i ≠ index := Nat.ne_of_gt hle
  exact (Function.update_of_ne hne ..).trans <|
    (Function.update_of_ne hne ..).trans (hahead i ((Nat.le_succ index).trans hle))

/-- One job goes through. -/
theorem exists_next {state last : Acc × Folder Key File} (hrun : task.runJob state job = .ok last)
    (hjob : jobs[index]? = some job) (htaking : pool.consumer = .taking index state.1)
    (hahead : Ahead index pool) :
    ∃ events after, Run (task.Step initial jobs) pool events after ∧
      after.consumer = .taking (index + 1) last.1 ∧ Ahead (index + 1) after := by
  obtain ⟨file, result, next, hproduce, haccept, hlast⟩ := runJob_ok hrun
  have hon : pool.consumer ≠ .off := by
    rw [htaking]
    exact nofun
  obtain ⟨made, hmade, hconsumer, hdone, hfolder, hahead'⟩ :=
    exists_produced initial hjob hon hahead
  rw [htaking] at hconsumer
  rw [hproduce] at hdone hfolder
  have htake : task.Step initial jobs made .take { made with consumer := afterTake index file next } :=
    .take hconsumer hjob hdone haccept
  cases file with
  | none =>
    rw [hlast]
    exact ⟨_, _, hmade.append (.single htake), rfl, hahead'⟩
  | some file =>
    obtain ⟨revised, acc, hrevise, rfl⟩ := hlast
    have hfile : made.folder.read (task.key job) = some file := by
      rw [hfolder]
      exact Folder.read_write_self ..
    have hread := hmade.append (.cons htake (.single (.read rfl hjob hfile hrevise)))
    cases revised with
    | none => exact ⟨_, _, hread, rfl, hahead'⟩
    | some file' => exact ⟨_, _, hread.append (.single (.replace rfl hjob)), rfl, hahead'⟩

/-- Where one job after the other succeeds, the pool can come to its end from any folder. -/
theorem exists_finished {files : Folder Key File} (hrun : task.runAll initial jobs = .ok (acc, files))
    (hoff : pool.consumer = .off) :
    ∃ events after, Run (task.Step initial jobs) pool events after ∧
      after.consumer = .finished acc := by
  have hreach : ∀ index, index ≤ jobs.length → ∃ events after reached,
      Run (task.Step initial jobs) pool events after ∧
      task.runAll initial (jobs.take index) = .ok reached ∧
      after.consumer = .taking index reached.1 ∧ Ahead index after := by
    intro index hle
    induction index with
    | zero => exact ⟨_, _, _, .single (.start hoff), rfl, rfl, fun _ _ => rfl⟩
    | succ index ih =>
      obtain ⟨events, after, ⟨reached, folder⟩, hevents, hreached, htaking, hahead⟩ :=
        ih (Nat.le_of_succ_le hle)
      obtain ⟨job, hjob⟩ : ∃ job, jobs[index]? = some job := ⟨_, List.getElem?_eq_getElem hle⟩
      have hnext : ∃ last, task.runJob (reached, folder) job = .ok last := by
        have hsplit := hrun
        unfold runAll at hsplit
        rw [← List.take_append_drop (index + 1) jobs, List.foldlM_append] at hsplit
        obtain ⟨last, hlast, -⟩ := exists_of_bind_ok hsplit
        rw [← runAll_concat hreached, ← take_next hjob]
        exact ⟨last, hlast⟩
      obtain ⟨last, hlast⟩ := hnext
      obtain ⟨more, after', hmore, htaking', hahead'⟩ := exists_next hlast hjob htaking hahead
      refine ⟨_, after', last, hevents.append hmore, ?_, htaking', hahead'⟩
      rw [take_next hjob, runAll_concat hreached, hlast]
  obtain ⟨events, after, reached, hevents, hreached, htaking, -⟩ := hreach jobs.length le_rfl
  rw [List.take_length, hrun] at hreached
  rw [← Except.ok.inj hreached] at htaking
  exact ⟨_, _, hevents.append (.single (.finish htaking rfl)), rfl⟩

end PoolTask

end MiryFormal
