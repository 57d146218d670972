import StorageStack.Pos.Uses

/-!
# Access rights of mapped segments

All objects have the same mode, which gives the owner and the group the same rights and other users none.
So the mode that `sys_pos_seg_alloc` takes from its caller is that of every process it maps the segment
in.  Rights are exact in every run whose searches find a hole.
-/

namespace StorageStack.Pos

open IntervalTree Store

variable {ν : Type} {kernel : Kernel} {junk : Junk} {areas : List VmaId}

namespace World

/-- An area in the list of the object contains the address. -/
def Contains (world : World ν) (record : RecordId) (address : Nat) : Prop :=
  ∃ id ∈ (world.store.record record).vmList,
    world.store.lo id ≤ address ∧ address < world.store.hi id

/-- The mode that an object gives a process. -/
def modeOf (world : World ν) (record : RecordId) (pid : Pid) : Nat :=
  accessMode (world.store.record record) (world.cred pid)

/-- All the rights that an object of the default mode gives are the same. -/
theorem accessMode_eq {desc : NsRecord} (mode : desc.mode = posDefaultMode) (cred : Cred)
    (allowed : accessMode desc cred ≠ 0) : accessMode desc cred = posUsrMode posDefaultMode := by
  unfold accessMode at allowed ⊢
  rw [mode] at allowed ⊢
  split_ifs at allowed ⊢
  · rfl
  · rfl
  · exact absurd rfl allowed

theorem modeOf_owner {world : World ν} {record : RecordId} {pid : Pid}
    (mode : (world.store.record record).mode = posDefaultMode)
    (owner : (world.store.record record).uid = (world.cred pid).uid) :
    world.modeOf record pid = posUsrMode posDefaultMode := by
  rw [modeOf, accessMode, if_pos owner, mode]

/-- The mode that an object gives a process depends on neither its areas nor its task list. -/
theorem modeOf_congr {world final : World ν} {record : RecordId}
    (same : { final.store.record record with vmList := [], taskList := [] } =
      { world.store.record record with vmList := [], taskList := [] })
    (cred : final.cred = world.cred) (pid : Pid) :
    final.modeOf record pid = world.modeOf record pid := by
  have mode := congrArg (fun desc : NsRecord => accessMode desc (world.cred pid)) same
  rw [modeOf, cred]
  exact mode

end World

/-- A call of the claimed kinds. -/
def Call.grows : Call ν → Prop
  | .create .. | .map .. | .unmap .. | .segAlloc .. => True
  | _ => False

namespace Watched

open World

variable {state next : Watched ν}

/-- What the calls keep. -/
structure Guarded (kernel : Kernel) (state : Watched ν) (areas : List VmaId) : Prop where
  layout : Layout kernel state.world.store areas
  catalogued : Catalogued state.world.store areas
  nonempty : ∀ entry ∈ state.world.store.sb.names, (state.world.store.record entry.2).vmList ≠ []
  prime : ∀ entry ∈ state.world.store.sb.names,
    Covers state.world.store areas entry.2 (state.world.store.record entry.2).primeSeg
  mode : ∀ entry ∈ state.world.store.sb.names,
    (state.world.store.record entry.2).mode = posDefaultMode
  tasks : ∀ entry ∈ state.world.store.sb.names,
    ∀ task ∈ (state.world.store.record entry.2).taskList,
      task.mode = state.world.modeOf entry.2 task.pidNr ∧ task.mode ≠ 0
  uses : ∀ entry ∈ state.world.store.sb.names, ∀ pid,
    tasksOf pid (state.world.store.record entry.2).taskList = state.uses entry.2 pid
  unused : ∀ record, (∀ entry ∈ state.world.store.sb.names, entry.2 ≠ record) →
    ∀ pid, state.uses record pid = 0
  living : ∀ pid, state.world.alive pid = true
  mapped : ∀ pid address rights, state.world.mapped pid address = some rights →
    ∃ entry ∈ state.world.store.sb.names, Covers state.world.store areas entry.2 address ∧
      state.world.modeOf entry.2 pid ≠ 0 ∧ rights = rightsOf (state.world.modeOf entry.2 pid)

/-- A call of `sys_pos_create` that finds a hole. -/
theorem Guarded.created (guarded : Guarded kernel state areas) {pid : Pid} {name : ν} {bytes addr : Nat}
    {final : World ν} {areas' : List VmaId}
    (created : Created kernel state.world areas pid name bytes addr final areas') (positive : 0 < bytes) :
    Guarded kernel ⟨final, state.count state.world.store.nextRecord pid (· + 1)⟩ areas' := by
  have old : ∀ entry ∈ state.world.store.sb.names, entry.2 ≠ state.world.store.nextRecord :=
    fun entry live => (guarded.catalogued.fresh entry live).ne
  have modeOld : ∀ entry ∈ state.world.store.sb.names, ∀ process,
      final.modeOf entry.2 process = state.world.modeOf entry.2 process := by
    intro entry live process
    rw [modeOf, created.old entry.2 (old entry live), created.cred]
    rfl
  have primeNew : (final.store.record state.world.store.nextRecord).primeSeg = addr :=
    congrArg NsRecord.primeSeg created.desc
  have modeNew : (final.store.record state.world.store.nextRecord).mode = posDefaultMode :=
    congrArg NsRecord.mode created.desc
  have tasksNew : (final.store.record state.world.store.nextRecord).taskList =
      [⟨pid, posUsrMode posDefaultMode⟩] := congrArg NsRecord.taskList created.desc
  have uidNew : (final.store.record state.world.store.nextRecord).uid = (final.cred pid).uid := by
    rw [created.cred]
    exact congrArg NsRecord.uid created.desc
  have grants : final.modeOf state.world.store.nextRecord pid = posUsrMode posDefaultMode :=
    modeOf_owner modeNew uidNew
  have covers : Covers final.store areas' state.world.store.nextRecord addr :=
    (created.covers _ _).mpr (.inr ⟨rfl, le_rfl, Nat.lt_add_of_pos_right positive⟩)
  have split : ∀ entry ∈ final.store.sb.names,
      entry = (name, state.world.store.nextRecord) ∨ entry ∈ state.world.store.sb.names := by
    intro entry live
    rw [created.names] at live
    exact List.mem_cons.mp live
  have usesOld : ∀ object, object ≠ state.world.store.nextRecord → ∀ process,
      state.count state.world.store.nextRecord pid (· + 1) object process =
        state.uses object process :=
    fun object apart process => count_of_ne (fun same => apart same.1) _
  refine ⟨created.layout, created.catalogued, ?_, ?_, ?_, ?_, ?_, ?_, ?_, ?_⟩
  · intro entry live
    rcases split entry live with rfl | before
    · obtain ⟨id, member, owned, -⟩ := covers
      rw [created.catalogued.listed _ live]
      exact List.ne_nil_of_mem (mem_areasOf.mpr ⟨member, owned⟩)
    · show (final.store.record entry.2).vmList ≠ []
      rw [created.old entry.2 (old entry before)]
      exact guarded.nonempty entry before
  · intro entry live
    rcases split entry live with rfl | before
    · show Covers final.store areas' _ (final.store.record _).primeSeg
      rw [primeNew]
      exact covers
    · show Covers final.store areas' entry.2 (final.store.record entry.2).primeSeg
      rw [created.covers, created.old entry.2 (old entry before)]
      exact .inl (guarded.prime entry before)
  · intro entry live
    rcases split entry live with rfl | before
    · exact modeNew
    · show (final.store.record entry.2).mode = posDefaultMode
      rw [created.old entry.2 (old entry before)]
      exact guarded.mode entry before
  · intro entry live task member
    rcases split entry live with rfl | before
    · rw [tasksNew, List.mem_singleton] at member
      subst member
      exact ⟨grants.symm, (by decide : posUsrMode posDefaultMode ≠ 0)⟩
    · have member' : task ∈ (final.store.record entry.2).taskList := member
      rw [created.old entry.2 (old entry before)] at member'
      show task.mode = final.modeOf entry.2 task.pidNr ∧ _
      rw [modeOld entry before]
      exact guarded.tasks entry before task member'
  · intro entry live process
    show tasksOf process (final.store.record entry.2).taskList =
      state.count state.world.store.nextRecord pid (· + 1) entry.2 process
    rcases split entry live with rfl | before
    · have none := guarded.unused _ old process
      rw [tasksNew]
      by_cases same : process = pid
      · subst same
        rw [count_self, none]
        simp [tasksOf]
      · rw [count_of_ne (fun both => same both.2), none]
        simpa [tasksOf] using Ne.symm same
    · rw [created.old entry.2 (old entry before), usesOld entry.2 (old entry before)]
      exact guarded.uses entry before process
  · intro record dead process
    have dead' : ∀ entry ∈ final.store.sb.names, entry.2 ≠ record := dead
    rw [created.names, List.forall_mem_cons] at dead'
    exact (usesOld record (Ne.symm dead'.1) process).trans (guarded.unused record dead'.2 process)
  · intro process
    show final.alive process = true
    rw [created.alive]
    exact guarded.living process
  · intro process address rights mapped
    have mapped' : final.mapped process address = some rights := mapped
    rw [created.mapped] at mapped'
    split at mapped'
    · rename_i inside
      obtain ⟨rfl, low, high⟩ := inside
      refine ⟨(name, state.world.store.nextRecord), ?_, ?_, ?_⟩
      · show _ ∈ final.store.sb.names
        rw [created.names]
        exact List.mem_cons_self ..
      · exact (created.covers _ _).mpr (.inr ⟨rfl, low, high⟩)
      · show final.modeOf _ process ≠ 0 ∧ _ = rightsOf (final.modeOf _ process)
        rw [grants]
        exact ⟨by decide, (Option.some.inj mapped').symm⟩
    · obtain ⟨entry, live, covered, allowed, same⟩ := guarded.mapped process address rights mapped'
      refine ⟨entry, ?_, (created.covers _ _).mpr (.inl covered), ?_⟩
      · show entry ∈ final.store.sb.names
        rw [created.names]
        exact List.mem_cons_of_mem _ live
      · show final.modeOf _ process ≠ 0 ∧ _ = rightsOf (final.modeOf _ process)
        rw [modeOld entry live]
        exact ⟨allowed, same⟩

/-- A call that keeps the objects. -/
theorem Guarded.kept (guarded : Guarded kernel state areas) {final : World ν} {areas' : List VmaId}
    {uses : RecordId → Pid → Nat} (layout : Layout kernel final.store areas')
    (catalogued : Catalogued final.store areas')
    (names : final.store.sb.names = state.world.store.sb.names)
    (records : ∀ object, { final.store.record object with vmList := [], taskList := [] } =
      { state.world.store.record object with vmList := [], taskList := [] })
    (alive : final.alive = state.world.alive) (cred : final.cred = state.world.cred)
    (covers : ∀ object address, Covers state.world.store areas object address →
      Covers final.store areas' object address)
    (tasks : ∀ entry ∈ state.world.store.sb.names, ∀ task ∈ (final.store.record entry.2).taskList,
      task ∈ (state.world.store.record entry.2).taskList ∨
        task.mode = state.world.modeOf entry.2 task.pidNr ∧ task.mode ≠ 0)
    (used : ∀ entry ∈ state.world.store.sb.names, ∀ pid,
      tasksOf pid (final.store.record entry.2).taskList = uses entry.2 pid)
    (unused : ∀ record, (∀ entry ∈ state.world.store.sb.names, entry.2 ≠ record) →
      ∀ pid, uses record pid = state.uses record pid)
    (mapped : ∀ pid address rights, final.mapped pid address = some rights →
      state.world.mapped pid address = some rights ∨
        ∃ entry ∈ state.world.store.sb.names, Covers final.store areas' entry.2 address ∧
          state.world.modeOf entry.2 pid ≠ 0 ∧
          rights = rightsOf (state.world.modeOf entry.2 pid)) :
    Guarded kernel ⟨final, uses⟩ areas' := by
  have modes : ∀ object pid, final.modeOf object pid = state.world.modeOf object pid :=
    fun object pid => modeOf_congr (records object) cred pid
  have primes : ∀ object, (final.store.record object).primeSeg =
      (state.world.store.record object).primeSeg := by
    intro object
    have same := congrArg NsRecord.primeSeg (records object)
    exact same
  refine ⟨layout, catalogued, ?_, ?_, ?_, ?_, ?_, ?_, ?_, ?_⟩
  · intro entry live
    have live' : entry ∈ state.world.store.sb.names := names ▸ live
    obtain ⟨id, member, owned, -⟩ := covers _ _ (guarded.prime entry live')
    rw [catalogued.listed entry live]
    exact List.ne_nil_of_mem (mem_areasOf.mpr ⟨member, owned⟩)
  · intro entry live
    have live' : entry ∈ state.world.store.sb.names := names ▸ live
    show Covers final.store areas' entry.2 (final.store.record entry.2).primeSeg
    rw [primes]
    exact covers _ _ (guarded.prime entry live')
  · intro entry live
    have live' : entry ∈ state.world.store.sb.names := names ▸ live
    have same := congrArg NsRecord.mode (records entry.2)
    exact Eq.trans same (guarded.mode entry live')
  · intro entry live task member
    have live' : entry ∈ state.world.store.sb.names := names ▸ live
    show task.mode = final.modeOf entry.2 task.pidNr ∧ task.mode ≠ 0
    rw [modes]
    exact (tasks entry live' task member).elim (guarded.tasks entry live' task) id
  · intro entry live pid
    exact used entry (names ▸ live) pid
  · intro record dead pid
    have dead' : ∀ entry ∈ final.store.sb.names, entry.2 ≠ record := dead
    rw [names] at dead'
    exact (unused record dead' pid).trans (guarded.unused record dead' pid)
  · intro pid
    show final.alive pid = true
    rw [alive]
    exact guarded.living pid
  · intro pid address rights found
    show ∃ entry ∈ final.store.sb.names, Covers final.store areas' entry.2 address ∧
      final.modeOf entry.2 pid ≠ 0 ∧ rights = rightsOf (final.modeOf entry.2 pid)
    simp only [names, modes]
    rcases mapped pid address rights found with before | new
    · obtain ⟨entry, live, covered, granted⟩ := guarded.mapped pid address rights before
      exact ⟨entry, live, covers _ _ covered, granted⟩
    · exact new

/-- An object may be used by a process that has rights on it. -/
theorem Guarded.mapAdded (guarded : Guarded kernel state areas) {pid : Pid} {name : ν}
    {record : RecordId} {final : World ν} (live : (name, record) ∈ state.world.store.sb.names)
    (allowed : state.world.modeOf record pid ≠ 0)
    (mapped : Mapped state.world areas pid record (state.world.modeOf record pid) final) :
    Guarded kernel ⟨final, state.count record pid (· + 1)⟩ areas := by
  have records : ∀ object, { final.store.record object with vmList := [], taskList := [] } =
      { state.world.store.record object with vmList := [], taskList := [] } := fun object =>
    congrArg (fun desc : NsRecord => { desc with vmList := [] }) (mapped.same.records object)
  have tasksOther : ∀ entry ∈ state.world.store.sb.names, entry.2 ≠ record →
      (final.store.record entry.2).taskList = (state.world.store.record entry.2).taskList :=
    fun entry _ apart => mapped.others entry.2 apart
  refine guarded.kept (mapped.same.layout guarded.layout) (mapped.same.catalogued guarded.catalogued)
    (by rw [mapped.same.sb]) records mapped.alive mapped.cred
    (fun object address => (mapped.same.covers object address).mpr) ?_ ?_ ?_ ?_
  · intro entry live' task member
    by_cases here : entry.2 = record
    · rw [here, mapped.tasks] at member
      rcases List.mem_cons.mp member with rfl | before
      · rw [here]
        exact .inr ⟨rfl, allowed⟩
      · rw [here]
        exact .inl before
    · rw [tasksOther entry live' here] at member
      exact .inl member
  · intro entry live' process
    by_cases here : entry.2 = record
    · rw [here, mapped.tasks, tasksOf_cons, ← here, guarded.uses entry live', here]
      by_cases same : pid = process
      · subst same
        rw [count_self, if_pos rfl]
      · rw [if_neg same, count_of_ne fun both => same both.2.symm]
        rfl
    · rw [tasksOther entry live' here, guarded.uses entry live', count_of_ne fun both => here both.1]
  · intro object dead process
    exact count_of_ne (fun both => dead _ live both.1.symm) _
  · intro process address rights found
    by_cases here : process = pid ∧ Covers state.world.store areas record address
    · obtain ⟨rfl, covered⟩ := here
      rw [mapped.inside address covered] at found
      exact .inr ⟨_, live, (mapped.same.covers _ _).mpr covered, allowed, (Option.some.inj found).symm⟩
    · rw [mapped.outside process address here] at found
      exact .inl found

/-- A process leaves an object. -/
theorem Guarded.unmapped (guarded : Guarded kernel state areas) {pid : Pid} {name : ν}
    {record : RecordId} {final : World ν} (live : (name, record) ∈ state.world.store.sb.names)
    (unmapped : Unmapped state.world areas pid record final) :
    Guarded kernel ⟨final, state.count record pid (· - 1)⟩ areas := by
  have records : ∀ object, { final.store.record object with vmList := [], taskList := [] } =
      { state.world.store.record object with vmList := [], taskList := [] } := fun object =>
    congrArg (fun desc : NsRecord => { desc with vmList := [] }) (unmapped.same.records object)
  refine guarded.kept (unmapped.same.layout guarded.layout)
    (unmapped.same.catalogued guarded.catalogued) (by rw [unmapped.same.sb]) records unmapped.alive
    unmapped.cred (fun object address => (unmapped.same.covers object address).mpr) ?_ ?_ ?_ ?_
  · intro entry live' task member
    by_cases here : entry.2 = record
    · rw [here, unmapped.tasks] at member
      rw [here]
      exact .inl (List.mem_of_mem_eraseP member)
    · rw [unmapped.others entry.2 here] at member
      exact .inl member
  · intro entry live' process
    by_cases here : entry.2 = record
    · rw [here, unmapped.tasks, tasksOf_dropTask, ← here, guarded.uses entry live',
        guarded.uses entry live', here]
      by_cases same : process = pid
      · subst same
        rw [count_self, if_pos rfl]
      · rw [if_neg same, count_of_ne fun both => same both.2]
    · rw [unmapped.others entry.2 here, guarded.uses entry live', count_of_ne fun both => here both.1]
  · intro object dead process
    exact count_of_ne (fun both => dead _ live both.1.symm) _
  · intro process address rights found
    by_cases here : process = pid ∧ Covers state.world.store areas record address
    · obtain ⟨rfl, covered⟩ := here
      rw [unmapped.inside address covered] at found
      cases found
    · rw [unmapped.outside process address here] at found
      exact .inl found

/-- A segment is mapped in processes that use the object. -/
theorem Guarded.allocated (guarded : Guarded kernel state areas) {name : ν} {record : RecordId}
    {task : TaskPid} {bytes addr : Nat} {refuses : Pid → Bool} {walked : Walk} {final : World ν}
    {areas' : List VmaId} (live : (name, record) ∈ state.world.store.sb.names)
    (caller : task ∈ (state.world.store.record record).taskList)
    (allocated : Allocated kernel state.world areas record bytes addr task.mode refuses walked final
      areas') : Guarded kernel ⟨final, state.uses⟩ areas' := by
  obtain ⟨left, visited⟩ := walkTasks_living guarded.living _ _ _ allocated.walk
  have lists : ∀ object, (final.store.record object).taskList =
      (state.world.store.record object).taskList := by
    intro object
    by_cases here : object = record
    · rw [here, allocated.left, left, List.nil_append]
    · exact allocated.others object here
  have granted : ∀ other ∈ (state.world.store.record record).taskList,
      state.world.modeOf record other.pidNr = posUsrMode posDefaultMode := by
    intro other member
    obtain ⟨same, allowed⟩ := guarded.tasks _ live other member
    rw [same] at allowed
    exact accessMode_eq (guarded.mode _ live) _ allowed
  refine guarded.kept allocated.layout allocated.catalogued allocated.names allocated.records
    allocated.alive allocated.cred
    (fun object address covered => (allocated.covers object address).mpr (.inl covered)) ?_ ?_ ?_ ?_
  · intro entry live' other member
    rw [lists] at member
    exact .inl member
  · intro entry live' process
    rw [lists]
    exact guarded.uses entry live' process
  · exact fun _ _ _ => rfl
  · intro process address rights found
    rw [allocated.mapped] at found
    split at found
    · rename_i inside
      obtain ⟨reached, low, high⟩ := inside
      obtain ⟨other, member, rfl⟩ := visited process reached
      refine .inr ⟨_, live, (allocated.covers _ _).mpr (.inr ⟨rfl, low, high⟩), ?_⟩
      have mode := (guarded.tasks _ live task caller).1
      rw [granted task caller] at mode
      show state.world.modeOf record other.pidNr ≠ 0 ∧ _ = rightsOf (state.world.modeOf record other.pidNr)
      rw [granted other member, ← Option.some.inj found, mode]
      exact ⟨by decide, rfl⟩
    · exact .inl found

variable [DecidableEq ν]

/-- A range of an object that is mapped in a process carries the rights that the object gives the process,
which are not none; a process that has not mapped an object cannot change its segments. -/
structure Enforced (kernel : Kernel) (junk : Junk) (state : Watched ν) : Prop where
  rights : ∀ entry ∈ state.world.store.sb.names, ∀ pid address rights,
    state.world.Contains entry.2 address → state.world.mapped pid address = some rights →
      state.world.modeOf entry.2 pid ≠ 0 ∧ rights = rightsOf (state.world.modeOf entry.2 pid)
  segAlloc : ∀ pid name record, state.world.posNsSearch name = some record →
    state.uses record pid = 0 → ∀ len tooMany refuses final result,
      state.world.sysPosSegAlloc kernel junk pid name len tooMany refuses = some (final, result) →
        final = state.world ∧ result = posError
  segFree : ∀ pid name record, state.world.posNsSearch name = some record →
    state.uses record pid = 0 → ∀ addr len final result,
      state.world.sysPosSegFree kernel junk pid name addr len = some (final, result) →
        final = state.world ∧ result = posError

theorem Guarded.enforced (guarded : Guarded kernel state areas) : Enforced kernel junk state where
  rights entry live pid address rights contained mapped := by
    have covered : Covers state.world.store areas entry.2 address :=
      (covers_iff_of_listed (guarded.catalogued.listed entry live) address).mpr contained
    obtain ⟨other, live', covered', allowed, same⟩ := guarded.mapped pid address rights mapped
    have record := guarded.layout.eq_of_covers covered covered'
    rw [record]
    exact ⟨allowed, same⟩
  segAlloc pid name record search unused len tooMany refuses final result called := by
    have none : taskOf pid (state.world.store.record record).taskList = none := by
      rw [taskOf_eq_none, guarded.uses _ (Catalogued.mem_of_lookup search) pid]
      exact unused
    rw [sysPosSegAlloc, search] at called
    dsimp only at called
    rw [none] at called
    split at called <;> cases called <;> exact ⟨rfl, rfl⟩
  segFree pid name record search unused addr len final result called := by
    have none : taskOf pid (state.world.store.record record).taskList = none := by
      rw [taskOf_eq_none, guarded.uses _ (Catalogued.mem_of_lookup search) pid]
      exact unused
    rw [sysPosSegFree, search] at called
    dsimp only at called
    rw [none] at called
    split at called <;> cases called <;> exact ⟨rfl, rfl⟩

omit [DecidableEq ν] in
theorem guarded_start (kernel : Kernel) (cred : Pid → Cred) (record : RecordId → NsRecord)
    (vma : VmaId → VmArea) :
    Guarded kernel (start kernel cred record vma : Watched ν) [] where
  layout := (sound_start kernel cred record vma).layout
  catalogued := (sound_start kernel cred record vma).catalogued
  nonempty _ live := nomatch live
  prime _ live := nomatch live
  mode _ live := nomatch live
  tasks _ live := nomatch live
  uses _ live := nomatch live
  unused _ _ _ := rfl
  living _ := rfl
  mapped _ _ _ found := nomatch found

/-- A call that finds a hole where it needs one keeps the rights exact. -/
theorem Guarded.step (guarded : Guarded kernel state areas) {call : Call ν} (grows : call.grows)
    (finds : FindsHole kernel state.world call) (step : state.step kernel junk call = some next) :
    ∃ areas', Guarded kernel next areas' := by
  obtain ⟨final, result, called, rfl⟩ := step_eq_some.mp step
  cases call with
  | create pid name size tooMany =>
      rcases sysPosCreate_spec guarded.layout guarded.catalogued finds called with
        ⟨rfl, error⟩ | ⟨success, few, new, areas', created⟩
      · refine ⟨areas, ?_⟩
        rw [usesAfter, if_pos error]
        exact guarded
      · refine ⟨areas', ?_⟩
        rw [usesAfter, if_neg success]
        exact guarded.created created (finds few new).1
  | map pid name tooMany =>
      rcases sysPosMap_spec guarded.catalogued called with
        ⟨rfl, error⟩ | ⟨record, search, prime, allowed, mapped⟩
      · refine ⟨areas, ?_⟩
        rw [usesAfter]
        cases state.world.posNsSearch name with
        | none => exact guarded
        | some record =>
            dsimp only
            rw [if_pos error]
            exact guarded
      · refine ⟨areas, ?_⟩
        have live := Catalogued.mem_of_lookup search
        rw [usesAfter, search]
        dsimp only
        obtain ⟨id, member, -, low, high⟩ := guarded.prime _ live
        have within := guarded.layout.within id member
        rw [prime, if_neg (kernel.not_mapError (within.1.trans low) (high.trans_le within.2))]
        exact guarded.mapAdded live allowed mapped
  | unmap pid name =>
      rcases sysPosUnmap_spec guarded.catalogued called with
        ⟨rfl, error, -⟩ | ⟨record, search, success, unmapped⟩
      · refine ⟨areas, ?_⟩
        rw [usesAfter]
        cases state.world.posNsSearch name with
        | none => exact guarded
        | some record =>
            dsimp only
            rw [if_neg (by rw [error]; decide)]
            exact guarded
      · refine ⟨areas, ?_⟩
        rw [usesAfter, search]
        dsimp only
        rw [if_pos success]
        exact guarded.unmapped (Catalogued.mem_of_lookup search) unmapped
  | segAlloc pid name len tooMany refuses =>
      rcases sysPosSegAlloc_spec guarded.layout guarded.catalogued
        (fun late record task search member =>
          ⟨guarded.nonempty _ (Catalogued.mem_of_lookup search),
            finds late record task search member⟩) called with
        ⟨rfl, -⟩ | ⟨record, task, addr, prev, store, walked, areas', -, search, member, -, -, -,
          allocated, -⟩
      · exact ⟨areas, guarded⟩
      · exact ⟨areas', guarded.allocated (Catalogued.mem_of_lookup search) (taskOf_some member).1
          allocated⟩
  | delete pid name => cases grows
  | segFree pid name addr len => cases grows
  | exit pid => cases grows
  | die pid => cases grows

/-- In every run of `sys_pos_create`, `sys_pos_map`, `sys_pos_unmap` and `sys_pos_seg_alloc` whose
searches find a hole, access rights are enforced. -/
theorem access_rights_enforced {cred : Pid → Cred} {record : RecordId → NsRecord} {vma : VmaId → VmArea}
    {calls : List (Call ν)} (grows : ∀ call ∈ calls, call.grows) {final : Watched ν}
    (execution : Execution.run (Watched.step kernel junk) (start kernel cred record vma) calls =
      some final)
    (finds : Execution.Meets (Watched.step kernel junk)
      (fun state call => FindsHole kernel state.world call) (start kernel cred record vma) calls) :
    Enforced kernel junk final := by
  have both := Execution.meets_and ((Execution.meets_iff_forall execution).mpr grows) finds
  obtain ⟨areas, guarded⟩ : ∃ areas, Guarded kernel final areas := by
    refine @Execution.run_invariant _ _ _ _ (fun state => ∃ areas, Guarded kernel state areas) ?_ _ _ _
      ⟨[], guarded_start kernel cred record vma⟩ both execution
    rintro state call next ⟨areas, guarded⟩ ⟨grows, finds⟩ step
    exact guarded.step grows finds step
  exact guarded.enforced

/-! ## Two users -/

/-- The machine of two users without a common group: process 0 belongs to user 0, the others to user 1. -/
def twoUsers : Watched Nat :=
  start plainKernel (fun pid => if pid = 0 then ⟨0, 0, [0]⟩ else ⟨1, 1, [1]⟩)
    (fun _ => ⟨[], 0, 0, 0, 0, []⟩) fun _ => ⟨0, 0, 0, .new 1 0, 0, none⟩

theorem access_rights_enforced_example : ∃ final,
    Execution.run (Watched.step plainKernel zeroJunk) twoUsers [.create 0 7 4 false, .map 1 7 false] =
      some final ∧ Enforced plainKernel zeroJunk final := by
  obtain ⟨final, execution⟩ := Option.isSome_iff_exists.mp (show (Execution.run
    (Watched.step plainKernel zeroJunk) twoUsers
      [.create 0 7 4 false, .map 1 7 false]).isSome from rfl)
  refine ⟨final, execution, access_rights_enforced ?_ execution ?_⟩
  · intro call member
    rcases List.mem_pair.mp member with rfl | rfl <;> trivial
  · refine ⟨fun _ _ => ⟨by decide, ?_⟩, fun _ _ => ⟨trivial, fun _ _ => trivial⟩⟩
    rintro addr prev store found rfl
    have place : ((twoUsers.world.entered 7).posGetUnmappedArea plainKernel (createBytes 4)).map
        (fun found => found.1) = some plainKernel.areaStart := rfl
    have place' := (congrArg (Option.map fun found => found.1) found).symm.trans place
    have zero : posError = plainKernel.areaStart := Option.some.inj place'
    exact absurd zero (by decide)

/-- When the store is full, two users get objects at address zero. -/
def fullStore : List (Call Nat) :=
  [.create 0 7 (2 ^ 20) false, .create 1 8 4 false, .create 0 9 4 false]

/-- A process of the first user has the object of the second mapped, which gives it no rights. -/
theorem access_rights_not_enforced : ∃ final,
    Execution.run (Watched.step plainKernel zeroJunk) twoUsers fullStore = some final ∧
      final.world.Contains 1 0 ∧ final.world.mapped 0 0 = some ⟨true, true⟩ ∧
      final.world.modeOf 1 0 = 0 ∧ ¬Enforced plainKernel zeroJunk final := by
  refine ⟨_, rfl, ⟨1, ?_, ?_⟩, rfl, rfl, fun enforced => ?_⟩
  · exact List.mem_singleton_self 1
  · exact ⟨Nat.zero_le _, by decide⟩
  · exact (enforced.rights (8, 1) (by decide) 0 0 ⟨true, true⟩ ⟨1, List.mem_singleton_self 1,
      Nat.zero_le _, by decide⟩ rfl).1 rfl

end Watched

end StorageStack.Pos
