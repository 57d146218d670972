import StorageStack.Pos.Segments

/-!
# Processes that map objects

What mapping and unmapping an object and the exit of a process do.  None of them touches the areas: the
task lists and the address space of the caller change.
-/

namespace StorageStack.Pos

open Store

variable {ν : Type} {kernel : Kernel} {junk : Junk} {store other third : Store ν}
  {areas areas' : List VmaId} {record : RecordId}

namespace Store

/-- The stores differ at most in task lists. -/
structure SameAreas (store other : Store ν) : Prop where
  sb : other.sb = store.sb
  vma : other.vma = store.vma
  nextVma : other.nextVma = store.nextVma
  nextRecord : other.nextRecord = store.nextRecord
  records : ∀ object, { other.record object with taskList := [] } =
    { store.record object with taskList := [] }

namespace SameAreas

theorem refl (store : Store ν) : SameAreas store store := ⟨rfl, rfl, rfl, rfl, fun _ => rfl⟩

theorem trans (first : SameAreas store other) (second : SameAreas other third) :
    SameAreas store third where
  sb := second.sb.trans first.sb
  vma := second.vma.trans first.vma
  nextVma := second.nextVma.trans first.nextVma
  nextRecord := second.nextRecord.trans first.nextRecord
  records object := (second.records object).trans (first.records object)

theorem vmList (same : SameAreas store other) (object : RecordId) :
    (other.record object).vmList = (store.record object).vmList := by
  have eq := congrArg NsRecord.vmList (same.records object)
  exact eq

theorem primeSeg (same : SameAreas store other) (object : RecordId) :
    (other.record object).primeSeg = (store.record object).primeSeg := by
  have eq := congrArg NsRecord.primeSeg (same.records object)
  exact eq

theorem lo (same : SameAreas store other) : other.lo = store.lo := by
  funext id
  rw [Store.lo, same.vma, Store.lo]

theorem hi (same : SameAreas store other) : other.hi = store.hi := by
  funext id
  rw [Store.hi, same.vma, Store.hi]

theorem owner (same : SameAreas store other) : other.owner = store.owner := by
  funext id
  rw [Store.owner, same.vma, Store.owner]

theorem mapOf (same : SameAreas store other) : other.mapOf = store.mapOf := by
  funext id
  rw [Store.mapOf, same.vma, Store.mapOf]

theorem next (same : SameAreas store other) : other.next = store.next := by
  funext id
  rw [Store.next, same.vma, Store.next]

theorem covers (same : SameAreas store other) (object : RecordId) (addr : Nat) :
    Covers other areas object addr ↔ Covers store areas object addr := by
  rw [Covers, same.owner, same.lo, same.hi, Covers]

theorem layout (same : SameAreas store other) (layout : Layout kernel store areas) :
    Layout kernel other areas where
  chain := by
    rw [same.next, same.sb]
    exact layout.chain
  inorder := same.sb ▸ layout.inorder
  spaced := by
    rw [same.lo, same.hi]
    exact layout.spaced
  within := by
    rw [same.lo, same.hi]
    exact layout.within
  fresh := same.nextVma ▸ layout.fresh
  cached := same.sb ▸ layout.cached

theorem aligned (same : SameAreas store other) (aligned : Aligned store areas) :
    Aligned other areas where
  area := by
    rw [same.lo, same.hi]
    exact aligned.area
  cache := same.sb ▸ aligned.cache

theorem untouched (same : SameAreas store other) (untouched : Untouched store areas) :
    Untouched other areas := by
  rw [Untouched, same.mapOf, same.lo, same.hi]
  exact untouched

theorem catalogued (same : SameAreas store other) (catalogued : Catalogued store areas) :
    Catalogued other areas where
  names := same.sb ▸ catalogued.names
  records := same.sb ▸ catalogued.records
  fresh := by
    rw [same.sb, same.nextRecord]
    exact catalogued.fresh
  count := same.sb ▸ catalogued.count
  owned := by
    rw [same.sb, same.owner]
    exact catalogued.owned
  listed entry member := by
    rw [same.sb] at member
    rw [same.vmList, areasOf, same.owner]
    exact catalogued.listed entry member

end SameAreas

theorem sameAreas_setTasks (record : RecordId) (change : List TaskPid → List TaskPid) :
    SameAreas store (store.setRecord record fun desc =>
      { desc with taskList := change desc.taskList }) := by
  refine ⟨rfl, rfl, rfl, rfl, fun object => ?_⟩
  by_cases eq : object = record
  · subst eq
    rw [record_setRecord_self]
  · rw [record_setRecord_of_ne eq]

end Store

namespace World

variable {world final : World ν} {pid : Pid} {name : ν} {result : Nat}

/-- Mapping the areas of a list changes the address space of the caller. -/
theorem mapAreas_spec (pid : Pid) (mode : Nat) (list : List VmaId) : ∀ world : World ν,
    (world.mapAreas pid mode list).store = world.store ∧
      (world.mapAreas pid mode list).alive = world.alive ∧
      (world.mapAreas pid mode list).cred = world.cred ∧
      (∀ address, (∃ id ∈ list, world.store.lo id ≤ address ∧ address < world.store.hi id) →
        (world.mapAreas pid mode list).mapped pid address = some (rightsOf mode)) ∧
      ∀ process address, ¬(process = pid ∧
          ∃ id ∈ list, world.store.lo id ≤ address ∧ address < world.store.hi id) →
        (world.mapAreas pid mode list).mapped process address = world.mapped process address := by
  induction list with
  | nil => exact fun world =>
      ⟨rfl, rfl, rfl, (fun _ ⟨_, member, _⟩ => nomatch member), fun _ _ _ => rfl⟩
  | cons id list ih =>
      intro world
      obtain ⟨store, alive, cred, inside, outside⟩ :=
        ih (world.posMapVma pid (world.store.lo id) (world.store.hi id) mode)
      refine ⟨store, alive, cred, fun address covered => ?_, fun process address away => ?_⟩
      · by_cases later : ∃ id ∈ list, world.store.lo id ≤ address ∧ address < world.store.hi id
        · exact inside address later
        · obtain ⟨first, member, here⟩ := covered
          rcases List.mem_cons.mp member with rfl | inList
          · refine (outside pid address fun covered => later covered.2).trans ?_
            rw [mapped_posMapVma, if_pos ⟨rfl, here⟩]
          · exact absurd ⟨first, inList, here⟩ later
      · refine (outside process address fun ⟨same, other, member, here⟩ =>
          away ⟨same, other, List.mem_cons_of_mem _ member, here⟩).trans ?_
        rw [mapped_posMapVma, if_neg fun here => away ⟨here.1, id, List.mem_cons_self .., here.2⟩]

/-- Unmapping the areas of a list changes the address space of the caller. -/
theorem unmapAreas_spec (pid : Pid) (list : List VmaId) : ∀ world : World ν,
    (world.unmapAreas pid list).store = world.store ∧
      (world.unmapAreas pid list).alive = world.alive ∧
      (world.unmapAreas pid list).cred = world.cred ∧
      (∀ address, (∃ id ∈ list, world.store.lo id ≤ address ∧ address < world.store.hi id) →
        (world.unmapAreas pid list).mapped pid address = none) ∧
      ∀ process address, ¬(process = pid ∧
          ∃ id ∈ list, world.store.lo id ≤ address ∧ address < world.store.hi id) →
        (world.unmapAreas pid list).mapped process address = world.mapped process address := by
  induction list with
  | nil => exact fun world =>
      ⟨rfl, rfl, rfl, (fun _ ⟨_, member, _⟩ => nomatch member), fun _ _ _ => rfl⟩
  | cons id list ih =>
      intro world
      obtain ⟨store, alive, cred, inside, outside⟩ := ih (world.posUnmapVma pid id)
      have unmapped : ∀ process address, (world.posUnmapVma pid id).mapped process address =
          if process = pid ∧ world.store.lo id ≤ address ∧ address < world.store.hi id then none
          else world.mapped process address := mapped_doMunmap _ _
      refine ⟨store, alive, cred, fun address covered => ?_, fun process address away => ?_⟩
      · by_cases later : ∃ id ∈ list, world.store.lo id ≤ address ∧ address < world.store.hi id
        · exact inside address later
        · obtain ⟨first, member, here⟩ := covered
          rcases List.mem_cons.mp member with rfl | inList
          · refine (outside pid address fun covered => later covered.2).trans ?_
            rw [unmapped, if_pos ⟨rfl, here⟩]
          · exact absurd ⟨first, inList, here⟩ later
      · refine (outside process address fun ⟨same, other, member, here⟩ =>
          away ⟨same, other, List.mem_cons_of_mem _ member, here⟩).trans ?_
        rw [unmapped, if_neg fun here => away ⟨here.1, id, List.mem_cons_self .., here.2⟩]

/-- What `sys_pos_map` does when it grants a mode. -/
structure Mapped (world : World ν) (areas : List VmaId) (pid : Pid) (record : RecordId) (mode : Nat)
    (final : World ν) : Prop where
  same : SameAreas world.store final.store
  tasks : (final.store.record record).taskList =
    ⟨pid, mode⟩ :: (world.store.record record).taskList
  others : ∀ object, object ≠ record →
    (final.store.record object).taskList = (world.store.record object).taskList
  alive : final.alive = world.alive
  cred : final.cred = world.cred
  inside : ∀ address, Covers world.store areas record address →
    final.mapped pid address = some (rightsOf mode)
  outside : ∀ process address, ¬(process = pid ∧ Covers world.store areas record address) →
    final.mapped process address = world.mapped process address

/-- The caller enters the task list, and the areas enter its address space. -/
theorem mapped_of_add {mode : Nat} (listed : (world.store.record record).vmList =
      world.store.areasOf areas record)
    (finalEq : World.mapAreas { world with store := world.store.setRecord record fun desc =>
      { desc with taskList := ⟨pid, mode⟩ :: desc.taskList } } pid mode
        ((world.store.setRecord record fun desc =>
          { desc with taskList := ⟨pid, mode⟩ :: desc.taskList }).record record).vmList = final) :
    Mapped world areas pid record mode final := by
  have same : SameAreas world.store (world.store.setRecord record fun desc =>
      { desc with taskList := ⟨pid, mode⟩ :: desc.taskList }) :=
    sameAreas_setTasks record fun tasks => ⟨pid, mode⟩ :: tasks
  obtain ⟨store, alive, cred, inside, outside⟩ := mapAreas_spec pid mode
    ((world.store.setRecord record fun desc =>
      { desc with taskList := ⟨pid, mode⟩ :: desc.taskList }).record record).vmList
    { world with store := world.store.setRecord record fun desc =>
      { desc with taskList := ⟨pid, mode⟩ :: desc.taskList } }
  rw [finalEq] at store alive cred inside outside
  dsimp only at store inside outside
  rw [same.lo, same.hi, same.vmList] at inside outside
  refine ⟨?_, ?_, fun object ne => ?_, alive, cred, fun address covered => ?_,
    fun process address away => ?_⟩
  · rw [store]
    exact same
  · rw [store, record_setRecord_self]
  · rw [store, record_setRecord_of_ne ne]
  · exact inside address ((covers_iff_of_listed listed address).mp covered)
  · exact outside process address fun ⟨eq, covered⟩ =>
      away ⟨eq, (covers_iff_of_listed listed address).mpr covered⟩

theorem sysPosMap_spec [DecidableEq ν] (catalogued : Catalogued world.store areas) {tooMany : Bool}
    (call : world.sysPosMap pid name tooMany = some (final, result)) :
    (final = world ∧ (result = 2 ^ 64 - 1 ∨ result = 0 ∨ result = posAccessError)) ∨
      ∃ record, world.posNsSearch name = some record ∧
        result = (world.store.record record).primeSeg ∧
        accessMode (world.store.record record) (world.cred pid) ≠ 0 ∧
        Mapped world areas pid record (accessMode (world.store.record record) (world.cred pid))
          final := by
  rw [sysPosMap] at call
  cases tooMany with
  | true =>
      cases call
      exact Or.inl ⟨rfl, Or.inl rfl⟩
  | false =>
      rw [if_neg Bool.false_ne_true] at call
      cases search : world.posNsSearch name with
      | none =>
          rw [search] at call
          cases call
          exact Or.inl ⟨rfl, Or.inr (Or.inl rfl)⟩
      | some record =>
          rw [search] at call
          dsimp only at call
          by_cases denied : accessMode (world.store.record record) (world.cred pid) = 0
          · rw [if_pos denied] at call
            cases call
            exact Or.inl ⟨rfl, Or.inr (Or.inr rfl)⟩
          · rw [if_neg denied] at call
            obtain ⟨finalEq, resultEq⟩ := Prod.mk.inj (Option.some.inj call)
            have listed := catalogued.listed _ (Catalogued.mem_of_lookup search)
            have same : SameAreas world.store (world.store.setRecord record fun desc =>
                { desc with taskList := ⟨pid, accessMode (world.store.record record)
                  (world.cred pid)⟩ :: desc.taskList }) :=
              sameAreas_setTasks record fun tasks => _ :: tasks
            exact Or.inr ⟨record, rfl, resultEq.symm.trans (same.primeSeg record), denied,
              mapped_of_add listed finalEq⟩

/-- What `sys_pos_unmap` does to an object that the caller has mapped. -/
structure Unmapped (world : World ν) (areas : List VmaId) (pid : Pid) (record : RecordId)
    (final : World ν) : Prop where
  same : SameAreas world.store final.store
  tasks : (final.store.record record).taskList =
    dropTask pid (world.store.record record).taskList
  others : ∀ object, object ≠ record →
    (final.store.record object).taskList = (world.store.record object).taskList
  alive : final.alive = world.alive
  cred : final.cred = world.cred
  inside : ∀ address, Covers world.store areas record address → final.mapped pid address = none
  outside : ∀ process address, ¬(process = pid ∧ Covers world.store areas record address) →
    final.mapped process address = world.mapped process address

/-- The caller leaves the task list, and the areas leave its address space. -/
theorem unmapped_of_drop (listed : (world.store.record record).vmList =
      world.store.areasOf areas record)
    (finalEq : World.unmapAreas { world with store := world.store.setRecord record fun desc =>
      { desc with taskList := dropTask pid desc.taskList } } pid
        ((world.store.setRecord record fun desc =>
          { desc with taskList := dropTask pid desc.taskList }).record record).vmList = final) :
    Unmapped world areas pid record final := by
  have same : SameAreas world.store (world.store.setRecord record fun desc =>
      { desc with taskList := dropTask pid desc.taskList }) := sameAreas_setTasks record (dropTask pid)
  obtain ⟨store, alive, cred, inside, outside⟩ := unmapAreas_spec pid
    ((world.store.setRecord record fun desc =>
      { desc with taskList := dropTask pid desc.taskList }).record record).vmList
    { world with store := world.store.setRecord record fun desc =>
      { desc with taskList := dropTask pid desc.taskList } }
  rw [finalEq] at store alive cred inside outside
  dsimp only at store inside outside
  rw [same.lo, same.hi, same.vmList] at inside outside
  refine ⟨?_, ?_, fun object ne => ?_, alive, cred, fun address covered => ?_,
    fun process address away => ?_⟩
  · rw [store]
    exact same
  · rw [store, record_setRecord_self]
  · rw [store, record_setRecord_of_ne ne]
  · exact inside address ((covers_iff_of_listed listed address).mp covered)
  · exact outside process address fun ⟨eq, covered⟩ =>
      away ⟨eq, (covers_iff_of_listed listed address).mpr covered⟩

theorem sysPosUnmap_spec [DecidableEq ν] (catalogued : Catalogued world.store areas)
    (call : world.sysPosUnmap pid name = some (final, result)) :
    (final = world ∧ result = posError ∧ ∀ record, world.posNsSearch name = some record →
        taskOf pid (world.store.record record).taskList = none) ∨
      ∃ record, world.posNsSearch name = some record ∧ result = posNormal ∧
        Unmapped world areas pid record final := by
  rw [sysPosUnmap] at call
  cases search : world.posNsSearch name with
  | none =>
      rw [search] at call
      cases call
      exact Or.inl ⟨rfl, rfl, fun _ found => nomatch found⟩
  | some record =>
      rw [search] at call
      dsimp only at call
      cases member : taskOf pid (world.store.record record).taskList with
      | none =>
          rw [member] at call
          cases call
          refine Or.inl ⟨rfl, rfl, fun record' found => ?_⟩
          obtain rfl := Option.some.inj found
          exact member
      | some task =>
          rw [member] at call
          obtain ⟨finalEq, rfl⟩ := Prod.mk.inj (Option.some.inj call)
          have listed := catalogued.listed _ (Catalogued.mem_of_lookup search)
          exact Or.inr ⟨record, rfl, rfl, unmapped_of_drop listed finalEq⟩

/-- What the exit of a process leaves to the others. -/
structure Left (world : World ν) (pid : Pid) (final : World ν) : Prop where
  same : SameAreas world.store final.store
  tasks : ∀ object, ((final.store.record object).taskList).Sublist
    (world.store.record object).taskList
  others : ∀ object, (final.store.record object).taskList.filter (fun task => task.pidNr ≠ pid) =
    (world.store.record object).taskList.filter fun task => task.pidNr ≠ pid
  cred : final.cred = world.cred
  mapped : ∀ process, process ≠ pid → final.mapped process = world.mapped process

theorem Left.trans {middle : World ν} (first : Left world pid middle) (second : Left middle pid final) :
    Left world pid final where
  same := first.same.trans second.same
  tasks object := (second.tasks object).trans (first.tasks object)
  others object := (second.others object).trans (first.others object)
  cred := second.cred.trans first.cred
  mapped process ne := (second.mapped process ne).trans (first.mapped process ne)

theorem filter_dropTask (pid : Pid) (tasks : List TaskPid) :
    (dropTask pid tasks).filter (fun task => task.pidNr ≠ pid) =
      tasks.filter fun task => task.pidNr ≠ pid := by
  induction tasks with
  | nil => rfl
  | cons task tasks ih =>
      rw [dropTask] at ih ⊢
      by_cases same : task.pidNr = pid
      · simp [List.eraseP_cons_of_pos, same]
      · rw [List.eraseP_cons_of_neg (by simpa using same), List.filter_cons_of_pos (by simpa using same),
          List.filter_cons_of_pos (by simpa using same), ih]

/-- Leaving one object. -/
theorem left_of_drop (pid : Pid) (record : RecordId) (world : World ν) :
    let store := world.store.setRecord record fun desc =>
      { desc with taskList := dropTask pid desc.taskList }
    let next := World.unmapAreas { world with store := store } pid (store.record record).vmList
    Left world pid next ∧ next.alive = world.alive := by
  intro store next
  have sameStore : SameAreas world.store store := sameAreas_setTasks record (dropTask pid)
  obtain ⟨storeEq, alive, cred, _, outside⟩ := unmapAreas_spec pid (store.record record).vmList
    { world with store := store }
  have sameNext : next.store = store := storeEq
  refine ⟨⟨sameNext ▸ sameStore, fun object => ?_, fun object => ?_, cred, fun process ne => ?_⟩, alive⟩
  · rw [sameNext]
    by_cases eq : object = record
    · subst eq
      rw [record_setRecord_self]
      exact List.eraseP_sublist
    · rw [record_setRecord_of_ne eq]
  · rw [sameNext]
    by_cases eq : object = record
    · subst eq
      rw [record_setRecord_self]
      exact filter_dropTask pid _
    · rw [record_setRecord_of_ne eq]
  · funext address
    exact outside process address fun here => ne here.1

theorem exitWalk_spec (pid : Pid) (rounds : Nat) : ∀ (vma : Option VmaId) (world final : World ν),
    exitWalk pid rounds vma world = some final →
      Left world pid final ∧ final.alive = world.alive := by
  have same (world : World ν) : Left world pid world :=
    ⟨SameAreas.refl _, fun _ => List.Sublist.refl _, fun _ => rfl, rfl, fun _ _ => rfl⟩
  induction rounds with
  | zero =>
      intro vma world final walk
      cases vma with
      | none =>
          obtain rfl := Option.some.inj walk
          exact ⟨same _, rfl⟩
      | some id => cases walk
  | succ rounds ih =>
      intro vma world final walk
      cases vma with
      | none =>
          obtain rfl := Option.some.inj walk
          exact ⟨same _, rfl⟩
      | some id =>
          rw [exitWalk] at walk
          obtain ⟨rest, alive⟩ := ih _ _ _ walk
          refine (?_ : Left world pid _ ∧ _ = world.alive).imp (fun first => first.trans rest)
            fun first => alive.trans first
          cases member : taskOf pid
              (world.store.record (world.store.vma id).nsRecord).taskList with
          | none => exact ⟨same _, rfl⟩
          | some task =>
              exact left_of_drop pid (world.store.vma id).nsRecord world

theorem posProcessExit_spec (call : world.posProcessExit pid = some final) :
    Left world pid final ∧ final.alive = Function.update world.alive pid false := by
  rw [posProcessExit, Option.map_eq_some_iff] at call
  obtain ⟨walked, walk, rfl⟩ := call
  obtain ⟨left, alive⟩ := exitWalk_spec pid _ _ _ _ walk
  refine ⟨⟨left.same, left.tasks, left.others, left.cred, left.mapped⟩, ?_⟩
  rw [← alive]

end World

end StorageStack.Pos
