import StorageStack.Pos.WellFormed

/-!
# Who uses an object

The calls that succeed tell how often a process has created or mapped an object and not unmapped it.  The
file keeps this count beside the world, where no call reads it.
-/

namespace StorageStack.Pos

/-- The world, and how often each process has mapped each object and not unmapped it. -/
structure Watched (ν : Type) where
  world : World ν
  uses : RecordId → Pid → Nat

namespace Watched

variable {ν : Type} [DecidableEq ν] (kernel : Kernel) (junk : Junk) (state : Watched ν)

/-- The uses with one count changed. -/
def count (record : RecordId) (pid : Pid) (change : Nat → Nat) : RecordId → Pid → Nat :=
  fun object process =>
    if object = record ∧ process = pid then change (state.uses object process)
    else state.uses object process

/-- The uses after a call, from its result. -/
def usesAfter (result : Nat) : Call ν → RecordId → Pid → Nat
  | .create pid _ _ _ =>
      if result = posError then state.uses
      else state.count state.world.store.nextRecord pid (· + 1)
  | .delete _ name =>
      match state.world.posNsSearch name with
      | none => state.uses
      | some record => fun object process =>
          if object = record ∧ result = posNormal then 0 else state.uses object process
  | .map pid name _ =>
      match state.world.posNsSearch name with
      | none => state.uses
      | some record =>
          if result = 2 ^ 64 - 1 ∨ result = 0 ∨ result = posAccessError then state.uses
          else state.count record pid (· + 1)
  | .unmap pid name =>
      match state.world.posNsSearch name with
      | none => state.uses
      | some record =>
          if result = posNormal then state.count record pid (· - 1) else state.uses
  | .exit pid => fun object process => if process = pid then 0 else state.uses object process
  | _ => state.uses

/-- Make a call. -/
def step (call : Call ν) : Option (Watched ν) :=
  (state.world.call kernel junk call).map fun outcome =>
    ⟨outcome.1, state.usesAfter outcome.2 call⟩

/-- Nobody uses anything when the machine starts. -/
def start (cred : Pid → Cred) (record : RecordId → NsRecord) (vma : VmaId → VmArea) : Watched ν :=
  ⟨World.start kernel cred record vma, fun _ _ => 0⟩

variable {kernel junk state}

theorem step_eq_some {call : Call ν} {next : Watched ν} :
    state.step kernel junk call = some next ↔ ∃ final result,
      state.world.call kernel junk call = some (final, result) ∧
        next = ⟨final, state.usesAfter result call⟩ := by
  rw [step, Option.map_eq_some_iff]
  constructor
  · rintro ⟨⟨final, result⟩, called, rfl⟩
    exact ⟨final, result, called, rfl⟩
  · rintro ⟨final, result, called, rfl⟩
    exact ⟨(final, result), called, rfl⟩

omit [DecidableEq ν] in
@[simp] theorem count_self (record : RecordId) (pid : Pid) (change : Nat → Nat) :
    state.count record pid change record pid = change (state.uses record pid) := by
  simp [count]

omit [DecidableEq ν] in
theorem count_of_ne {record object : RecordId} {pid process : Pid}
    (apart : ¬(object = record ∧ process = pid)) (change : Nat → Nat) :
    state.count record pid change object process = state.uses object process := if_neg apart

end Watched

/-- An address belongs to one object. -/
theorem Store.Layout.eq_of_covers {ν : Type} {kernel : Kernel} {store : Store ν} {areas : List VmaId}
    (layout : Store.Layout kernel store areas) {first second : RecordId} {address : Nat}
    (covered : Store.Covers store areas first address)
    (covered' : Store.Covers store areas second address) : first = second := by
  obtain ⟨id, member, rfl, low, high⟩ := covered
  obtain ⟨other, member', rfl, low', high'⟩ := covered'
  rw [layout.eq_of_mem member member' low high low' high']

/-- No address of the store is an error of `sys_pos_map`. -/
theorem Kernel.not_mapError (kernel : Kernel) {addr : Nat} (low : kernel.areaStart ≤ addr)
    (high : addr < kernel.areaEnd) : ¬(addr = 2 ^ 64 - 1 ∨ addr = 0 ∨ addr = posAccessError) := by
  have start := kernel.size_le_start
  have stop := kernel.end_le
  have size : posAreaSize = 1073741824 := rfl
  have access : posAccessError = 2 := rfl
  rw [Kernel.areaEnd] at high
  omega

/-- The entries of a process in a task list. -/
def tasksOf (pid : Pid) (tasks : List TaskPid) : Nat := tasks.countP fun task => task.pidNr = pid

theorem tasksOf_cons (pid : Pid) (task : TaskPid) (tasks : List TaskPid) :
    tasksOf pid (task :: tasks) = tasksOf pid tasks + if task.pidNr = pid then 1 else 0 := by
  simp [tasksOf, List.countP_cons]

namespace World

theorem tasksOf_dropTask (pid process : Pid) (tasks : List TaskPid) :
    tasksOf process (dropTask pid tasks) =
      if process = pid then tasksOf pid tasks - 1 else tasksOf process tasks := by
  induction tasks with
  | nil => simp [dropTask, tasksOf]
  | cons task tasks ih =>
      rw [dropTask] at ih ⊢
      by_cases here : task.pidNr = pid
      · rw [List.eraseP_cons_of_pos (by simpa using here), tasksOf_cons, if_pos here]
        split
        · rename_i same
          subst same
          omega
        · rename_i apart
          rw [tasksOf_cons, if_neg fun same => apart (same.symm.trans here), Nat.add_zero]
      · rw [List.eraseP_cons_of_neg (by simpa using here), tasksOf_cons, ih, tasksOf_cons,
          if_neg here, tasksOf_cons]
        split
        · rename_i same
          subst same
          rw [if_neg here]
          omega
        · rfl

theorem taskOf_eq_none {pid : Pid} {tasks : List TaskPid} :
    taskOf pid tasks = none ↔ tasksOf pid tasks = 0 := by
  simp [taskOf, tasksOf, List.countP_eq_zero]

theorem taskOf_some {pid : Pid} {tasks : List TaskPid} {task : TaskPid}
    (found : taskOf pid tasks = some task) : task ∈ tasks ∧ task.pidNr = pid :=
  ⟨List.mem_of_find?_eq_some found, by simpa using List.find?_some found⟩

/-- The walk over a task list whose processes all live visits some of them, and leaves the list as it
is. -/
theorem walkTasks_living {alive refuses : Pid → Bool} (living : ∀ pid, alive pid = true)
    (tasks : List TaskPid) : ∀ skipped walk, walkTasks alive refuses skipped tasks = some walk →
      walk.left = skipped ++ tasks ∧ ∀ pid ∈ walk.visited, ∃ task ∈ tasks, task.pidNr = pid := by
  induction tasks with
  | nil =>
      intro skipped walk walked
      rw [walkTasks] at walked
      obtain rfl := Option.some.inj walked
      exact ⟨(List.append_nil _).symm, fun _ member => nomatch member⟩
  | cons task tasks ih =>
      intro skipped walk walked
      rw [walkTasks.eq_def] at walked
      dsimp only at walked
      rw [if_pos (living _)] at walked
      split at walked
      · obtain rfl := Option.some.inj walked
        exact ⟨rfl, fun _ member => nomatch member⟩
      · obtain ⟨rest, walkedRest, rfl⟩ := Option.map_eq_some_iff.mp walked
        obtain ⟨left, visited⟩ := ih _ _ walkedRest
        refine ⟨by rw [left, List.nil_append], fun pid member => ?_⟩
        rcases List.mem_cons.mp member with rfl | later
        · exact ⟨task, List.mem_cons_self .., rfl⟩
        · obtain ⟨other, inside, same⟩ := visited pid later
          exact ⟨other, List.mem_cons_of_mem _ inside, same⟩

/-- The search of a call that gets to one finds a hole, for at least one byte. -/
def FindsHole {ν : Type} [DecidableEq ν] (kernel : Kernel) (world : World ν) : Call ν → Prop
  | .create _ name size tooMany => tooMany = false → world.posNsSearch name = none →
      0 < createBytes size ∧ ∀ addr prev store,
        (world.entered name).posGetUnmappedArea kernel (createBytes size) = some (addr, prev, store) →
          addr ≠ posError
  | .segAlloc pid name len tooMany _ =>
      ¬(len = 0 ∨ pageAlign len = 0 ∨ posAreaSize < pageAlign len ∨ tooMany = true) →
        ∀ record task, world.posNsSearch name = some record →
          taskOf pid (world.store.record record).taskList = some task →
            ∀ addr prev store, world.store.posGetUnmappedArea kernel (pageAlign len) =
              some (addr, prev, store) → addr ≠ posError
  | _ => True

end World

end StorageStack.Pos
