import StorageStack.Pos.HoleSearch
import StorageStack.Pos.WellFormed

/-!
# Calls that cannot be satisfied

`sys_pos_create` and `sys_pos_seg_alloc` go on with `POS_ERROR` as an address when the search for a hole
reports it, and `sys_pos_seg_alloc` leaves the new segment in the store when a process refuses to map it.
-/

namespace StorageStack.Pos

open IntervalTree LinkedChain Store

variable {ν : Type} {kernel : Kernel} {junk : Junk} {store grown : Store ν} {areas : List VmaId}
  {record : RecordId} {prev next : Option VmaId} {vmStart vmEnd : Nat}

/-! ## What merging a segment leaves alone -/

theorem taskList_setVmList (object other : RecordId) (vmList : List VmaId) :
    ((store.setRecord object fun desc => { desc with vmList := vmList }).record other).taskList =
      (store.record other).taskList := by
  by_cases eq : other = object
  · subst eq
    rw [record_setRecord_self]
  · rw [record_setRecord_of_ne eq]

theorem taskList_listDel (id : VmaId) (object : RecordId) :
    ((store.listDel id).record object).taskList = (store.record object).taskList :=
  taskList_setVmList (store.vma id).nsRecord object _

theorem taskList_posVmaLinkList2 (id : VmaId) (object : RecordId) :
    ((store.posVmaLinkList2 record id).record object).taskList = (store.record object).taskList :=
  taskList_setVmList record object _

theorem vmCount_posVmaLinkList (id : VmaId) (prev parent : Option VmaId) :
    (store.posVmaLinkList id prev parent).sb.vmCount = store.sb.vmCount := by
  cases prev <;> rfl

/-- `pos_create_or_merge_vma` does not touch the task lists. -/
theorem taskList_posCreateOrMergeVma
    (merged : store.posCreateOrMergeVma kernel junk record prev next vmStart vmEnd = some grown)
    (object : RecordId) : (grown.record object).taskList = (store.record object).taskList := by
  rw [posCreateOrMergeVma.eq_def] at merged
  dsimp only at merged
  split at merged
  · split at merged
    · cases merged
    · obtain rfl := Option.some.inj merged
      exact taskList_listDel _ object
  · split at merged
    · cases merged
    · obtain rfl := Option.some.inj merged
      rfl
  · split at merged
    · cases merged
    · obtain rfl := Option.some.inj merged
      rfl
  · obtain rfl := Option.some.inj merged
    refine (taskList_posVmaLinkList2 _ object).trans ?_
    rw [(relinked_posInsertVmArea _).record]
    rfl

/-! ## A segment at address zero -/

theorem vma_newVma (area : VmArea) : (store.newVma area).vma store.nextVma = area :=
  Function.update_self ..

theorem Store.Layout.mem_of_next (layout : Layout kernel store areas) {id later : VmaId} (member : id ∈ areas)
    (link : store.next id = some later) : later ∈ areas := by
  obtain ⟨front, back, rfl⟩ := List.append_of_mem member
  have rest := layout.chain.next_eq
  rw [link] at rest
  cases back with
  | nil => cases rest
  | cons other back =>
      obtain rfl := Option.some.inj rest.1
      simp

/-- An area that ends below the store's range is linked and counted. -/
theorem vmCount_posInsertVmArea (layout : Layout kernel store areas) {id : VmaId}
    (below : store.hi id ≤ kernel.areaStart) (proper : store.lo id < kernel.areaStart) :
    (store.posInsertVmArea kernel id).sb.vmCount = store.sb.vmCount + 1 := by
  have linked := fun prev parent => @vmCount_posVmaLinkList ν store id prev parent
  have inorder := layout.inorder
  have place := prepare_eq store.sb.rb (store.lo id) (inorder ▸ layout.spaced)
    (fun item member => .inr (proper.trans_le (layout.within item (inorder ▸ member)).1))
    ⟨none, none, none⟩
  rw [posInsertVmArea]
  dsimp only
  split
  · rename_i vma found
    rw [place.1, Option.or_none] at found
    have member := (mem_behind.mp (List.mem_of_head? found)).1
    have within := layout.within vma (inorder ▸ member)
    rw [if_neg (by omega)]
    exact congrArg (· + 1) (linked _ _)
  · exact congrArg (· + 1) (linked _ _)

/-- A segment at address zero is counted as a new area, or an area of the store starts there. -/
theorem posCreateOrMergeVma_zero (layout : Layout kernel store areas)
    (inside : ∀ id, prev = some id → id ∈ areas) {bytes : Nat} (small : bytes ≤ posAreaSize)
    (merged : store.posCreateOrMergeVma kernel junk record prev (prev.bind store.next) 0 bytes =
      some grown) :
    grown.sb.vmCount = store.sb.vmCount + 1 ∨ ∃ id ∈ areas, grown.lo id = 0 := by
  have start := kernel.size_le_start
  have positive : 0 < kernel.areaStart := lt_of_lt_of_le (by decide) start
  have noPrev : (prev.filter fun id => store.hi id = 0 ∧ (store.vma id).nsRecord = record) = none := by
    rw [Option.filter_eq_none_iff]
    intro id same
    have member := inside id same
    have within := layout.within id member
    have proper := layout.spaced.2 id member
    simp only [decide_eq_true_eq, not_and]
    intro zero
    omega
  rw [posCreateOrMergeVma.eq_def] at merged
  dsimp only at merged
  rw [noPrev] at merged
  cases fits : (prev.bind store.next).filter fun id =>
      bytes = store.lo id ∧ (store.vma id).nsRecord = record with
  | none =>
      rw [fits] at merged
      obtain rfl := Option.some.inj merged
      refine .inl ?_
      have fresh : store.nextVma ∉ areas := fun member => Nat.lt_irrefl _ (layout.fresh _ member)
      set area : VmArea :=
        { vmStart := 0, vmEnd := bytes, nrPages := pagesBetween 0 bytes
          mapArray := MapArray.new (posPagesToLevel (pagesBetween 0 bytes)) (0 / pageSize)
          nsRecord := record, vmNext := none } with areaEq
      have written : Layout kernel (store.newVma area) areas :=
        layout.write_outside fresh rfl rfl (Nat.le_succ _)
      have loNew : (store.newVma area).lo store.nextVma = 0 := congrArg VmArea.vmStart (vma_newVma area)
      have hiNew : (store.newVma area).hi store.nextVma = bytes := congrArg VmArea.vmEnd (vma_newVma area)
      exact vmCount_posInsertVmArea written (by rw [hiNew]; exact small.trans start)
        (by rw [loNew]; exact positive)
  | some later =>
      rw [fits] at merged
      obtain ⟨link, -⟩ := Option.filter_eq_some_iff.mp fits
      obtain ⟨id, same, link⟩ := Option.bind_eq_some_iff.mp link
      dsimp only at merged
      split at merged
      · cases merged
      · obtain rfl := Option.some.inj merged
        refine .inr ⟨later, layout.mem_of_next (inside id same) link, ?_⟩
        rw [setVma_setVma, lo_setVma, Function.update_self]

/-! ## The two calls -/

namespace World

variable {world final : World ν} {pid : Pid} {name : ν} {size len : Nat} {tooMany : Bool}
  {refuses : Pid → Bool} {task : TaskPid} {addr : Nat}

/-- The objects with their areas and task lists, the tree, the list and the counters of the superblock,
and the mappings of the processes are the same. -/
structure Unchanged (world final : World ν) : Prop where
  names : final.store.sb.names = world.store.sb.names
  record : ∀ entry ∈ world.store.sb.names, final.store.record entry.2 = world.store.record entry.2
  rb : final.store.sb.rb = world.store.sb.rb
  vmNext : final.store.sb.vmNext = world.store.sb.vmNext
  vma : ∀ id ∈ world.store.sb.rb.inorder, final.store.vma id = world.store.vma id
  nsCount : final.store.sb.nsCount = world.store.sb.nsCount
  totalVm : final.store.sb.totalVm = world.store.sb.totalVm
  vmCount : final.store.sb.vmCount = world.store.sb.vmCount
  mapped : final.mapped = world.mapped

theorem Unchanged.refl (world : World ν) : Unchanged world world :=
  ⟨rfl, fun _ _ => rfl, rfl, rfl, fun _ _ => rfl, rfl, rfl, rfl, rfl⟩

/-- Without a hole the call returns `POS_ERROR`, and when it does nothing has changed. -/
structure ChangesNothing (world : World ν) (noHole : Prop) (outcome : Option (World ν × Nat)) :
    Prop where
  fails : noHole → ∃ final, outcome = some (final, posError)
  unchanged : ∀ final, outcome = some (final, posError) → Unchanged world final

variable [DecidableEq ν]

/-- A `sys_pos_create` gets to its search and finds no hole. -/
def CreateFindsNoHole (kernel : Kernel) (world : World ν) (name : ν) (size : Nat) (tooMany : Bool) :
    Prop :=
  tooMany = false ∧ world.posNsSearch name = none ∧ ∃ prev store,
    (world.entered name).posGetUnmappedArea kernel (createBytes size) = some (posError, prev, store)

/-- A `sys_pos_seg_alloc` gets to its search, with what the search returns. -/
def SegAllocSearches (kernel : Kernel) (world : World ν) (pid : Pid) (name : ν) (len : Nat)
    (tooMany : Bool) (record : RecordId) (task : TaskPid) (addr : Nat) (prev : Option VmaId)
    (store : Store ν) : Prop :=
  ¬(len = 0 ∨ pageAlign len = 0 ∨ posAreaSize < pageAlign len ∨ tooMany = true) ∧
    world.posNsSearch name = some record ∧
    taskOf pid (world.store.record record).taskList = some task ∧
    world.store.posGetUnmappedArea kernel (pageAlign len) = some (addr, prev, store)

/-- A `sys_pos_seg_alloc` gets to its search and finds no hole. -/
def SegAllocFindsNoHole (kernel : Kernel) (world : World ν) (pid : Pid) (name : ν) (len : Nat)
    (tooMany : Bool) : Prop :=
  ∃ record task prev store,
    SegAllocSearches kernel world pid name len tooMany record task posError prev store

/-- A `sys_pos_seg_alloc` merges the segment into the areas, and then meets a process that refuses to map
it. -/
def SegAllocRefused (kernel : Kernel) (junk : Junk) (world : World ν) (pid : Pid) (name : ν)
    (len : Nat) (tooMany : Bool) (refuses : Pid → Bool) : Prop :=
  ∃ record task addr prev store,
    SegAllocSearches kernel world pid name len tooMany record task addr prev store ∧
    (store.posCreateOrMergeVma kernel junk record prev (prev.bind store.next) addr
      (addr + pageAlign len)).isSome ∧
    ∃ walk, walkTasks world.alive refuses [] (world.store.record record).taskList = some walk ∧
      walk.done = false

/-- A `sys_pos_create` past its tests enters the name, and returns the address that its search returns. -/
theorem sysPosCreate_past (few : tooMany = false) (new : world.posNsSearch name = none)
    {result : Nat} (called : world.sysPosCreate kernel pid name size tooMany = some (final, result)) :
    (∃ prev store, (world.entered name).posGetUnmappedArea kernel (createBytes size) =
        some (result, prev, store)) ∧
      final.store.sb.names = (name, world.store.nextRecord) :: world.store.sb.names := by
  rw [sysPosCreate, few, if_neg Bool.false_ne_true, new, Option.isSome_none,
    if_neg Bool.false_ne_true] at called
  dsimp only at called
  split at called
  · cases called
  · rename_i addr prev store search
    obtain ⟨cache, hole, free, rfl⟩ := recached_posGetUnmappedArea search
    obtain ⟨rfl, rfl⟩ := Prod.mk.inj (Option.some.inj called)
    exact ⟨⟨prev, _, search⟩, (relinked_posInsertVmArea _).names⟩

/-- What `sys_pos_seg_alloc` does after its search. -/
theorem sysPosSegAlloc_of_searches
    (searches : SegAllocSearches kernel world pid name len tooMany record task addr prev store) :
    world.sysPosSegAlloc kernel junk pid name len tooMany refuses =
      (store.posCreateOrMergeVma kernel junk record prev (prev.bind store.next) addr
        (addr + pageAlign len)).bind fun grown =>
          (World.forTasks { world with store := grown } refuses record fun world pid =>
            world.posMapVma pid addr (addr + pageAlign len) task.mode).map fun walked =>
              (walked.1, if walked.2 then addr else posError) := by
  obtain ⟨late, search, member, found⟩ := searches
  rw [sysPosSegAlloc]
  dsimp only
  rw [if_neg late, search]
  dsimp only
  rw [member]
  dsimp only
  rw [found]
  dsimp only
  cases store.posCreateOrMergeVma kernel junk record prev (prev.bind store.next) addr
      (addr + pageAlign len) with
  | none => rfl
  | some grown =>
      dsimp only [Option.bind_some]
      split <;> rename_i walk <;> rw [walk] <;> rfl

/-- A `sys_pos_seg_alloc` that does not get to its search changes nothing. -/
theorem sysPosSegAlloc_cases (kernel : Kernel) (junk : Junk) (world : World ν) (pid : Pid) (name : ν)
    (len : Nat) (tooMany : Bool) (refuses : Pid → Bool) :
    world.sysPosSegAlloc kernel junk pid name len tooMany refuses = some (world, posError) ∨
      world.sysPosSegAlloc kernel junk pid name len tooMany refuses = none ∨
      ∃ record task addr prev store,
        SegAllocSearches kernel world pid name len tooMany record task addr prev store := by
  rw [sysPosSegAlloc]
  dsimp only
  by_cases early : len = 0 ∨ pageAlign len = 0 ∨ posAreaSize < pageAlign len ∨ tooMany = true
  · rw [if_pos early]
    exact .inl rfl
  rw [if_neg early]
  cases search : world.posNsSearch name with
  | none => exact .inl rfl
  | some record =>
      dsimp only
      cases member : taskOf pid (world.store.record record).taskList with
      | none => exact .inl rfl
      | some task =>
          cases found : world.store.posGetUnmappedArea kernel (pageAlign len) with
          | none => exact .inr (.inl rfl)
          | some result =>
              obtain ⟨addr, prev, store⟩ := result
              exact .inr (.inr ⟨record, task, addr, prev, store, early, search, member, found⟩)

/-- Where the search finds a hole, an error of `sys_pos_create` changes nothing. -/
theorem create_changesNothing (hole : ¬CreateFindsNoHole kernel world name size tooMany) :
    ChangesNothing world (CreateFindsNoHole kernel world name size tooMany)
      (world.sysPosCreate kernel pid name size tooMany) where
  fails found := absurd found hole
  unchanged final called := by
    cases few : tooMany with
    | true =>
        rw [sysPosCreate, few, if_pos rfl] at called
        cases called
        exact .refl world
    | false =>
        cases new : world.posNsSearch name with
        | some record =>
            rw [sysPosCreate, few, if_neg Bool.false_ne_true, new, Option.isSome_some,
              if_pos rfl] at called
            cases called
            exact .refl world
        | none => exact absurd ⟨few, new, (sysPosCreate_past few new called).1⟩ hole

/-- A `sys_pos_create` that finds no hole enters the name all the same. -/
theorem create_changes (missing : CreateFindsNoHole kernel world name size tooMany) :
    ¬ChangesNothing world (CreateFindsNoHole kernel world name size tooMany)
      (world.sysPosCreate kernel pid name size tooMany) := by
  intro nothing
  obtain ⟨final, called⟩ := nothing.fails missing
  have entered := (sysPosCreate_past missing.1 missing.2.1 called).2
  rw [(nothing.unchanged final called).names] at entered
  have longer := congrArg List.length entered
  rw [List.length_cons] at longer
  omega

/-- Where the search finds a hole and no process refuses the segment, an error of `sys_pos_seg_alloc`
changes nothing. -/
theorem segAlloc_changesNothing (hole : ¬SegAllocFindsNoHole kernel world pid name len tooMany)
    (mapped : ¬SegAllocRefused kernel junk world pid name len tooMany refuses) :
    ChangesNothing world (SegAllocFindsNoHole kernel world pid name len tooMany)
      (world.sysPosSegAlloc kernel junk pid name len tooMany refuses) where
  fails found := absurd found hole
  unchanged final called := by
    rcases sysPosSegAlloc_cases kernel junk world pid name len tooMany refuses with
      same | none | ⟨record, task, addr, prev, store, searches⟩
    · rw [same] at called
      cases called
      exact .refl world
    · rw [none] at called
      cases called
    · rw [sysPosSegAlloc_of_searches searches] at called
      obtain ⟨grown, merged, called⟩ := Option.bind_eq_some_iff.mp called
      obtain ⟨⟨walkedWorld, done⟩, walked, called⟩ := Option.map_eq_some_iff.mp called
      obtain ⟨walk, walks, doneEq, -⟩ := forTasks_spec walked fun _ _ => ⟨rfl, rfl, rfl⟩
      have result := congrArg Prod.snd called
      cases done with
      | true =>
          have zero : addr = posError := result
          exact absurd ⟨record, task, prev, store, zero ▸ searches⟩ hole
      | false =>
          obtain ⟨cache, holeSize, free, rfl⟩ := recached_posGetUnmappedArea searches.2.2.2
          rw [taskList_posCreateOrMergeVma merged] at walks
          exact absurd ⟨record, task, addr, prev, _, searches, Option.isSome_of_mem merged, walk, walks,
            doneEq.symm⟩ mapped

/-- A segment at address zero changes the store. -/
theorem segAlloc_changes_of_noHole (layout : Layout kernel world.store areas)
    (missing : SegAllocFindsNoHole kernel world pid name len tooMany) :
    ¬ChangesNothing world (SegAllocFindsNoHole kernel world pid name len tooMany)
      (world.sysPosSegAlloc kernel junk pid name len tooMany refuses) := by
  intro nothing
  obtain ⟨final, called⟩ := nothing.fails missing
  have same := nothing.unchanged final called
  obtain ⟨record, task, prev, store, searches⟩ := missing
  obtain ⟨addr, prev', sb, found, searched, -, inside, -⟩ :=
    layout.posGetUnmappedArea_spec (pageAlign len)
  obtain ⟨cache, holeSize, free, rfl⟩ := recached_posGetUnmappedArea searches.2.2.2
  obtain ⟨rfl, sameRest⟩ := Prod.mk.inj (Option.some.inj (searches.2.2.2.symm.trans found))
  obtain ⟨rfl, sameStore⟩ := Prod.mk.inj sameRest
  rw [← sameStore] at searched
  rw [sysPosSegAlloc_of_searches searches] at called
  obtain ⟨grown, merged, called⟩ := Option.bind_eq_some_iff.mp called
  obtain ⟨⟨walkedWorld, done⟩, walked, called⟩ := Option.map_eq_some_iff.mp called
  obtain ⟨walk, -, -, storeEq, -⟩ := forTasks_spec walked fun _ _ => ⟨rfl, rfl, rfl⟩
  obtain ⟨rfl, -⟩ := Prod.mk.inj called
  have small : posError + pageAlign len ≤ posAreaSize := by
    have late := searches.1
    rw [posError, Nat.zero_add]
    omega
  rw [posError, Nat.zero_add] at merged
  rcases posCreateOrMergeVma_zero searched inside (by rwa [posError, Nat.zero_add] at small) merged with
    counted | ⟨id, member, starts⟩
  · have unchanged := same.vmCount
    rw [storeEq] at unchanged
    have counted' : world.store.sb.vmCount + 1 = world.store.sb.vmCount := counted.symm.trans unchanged
    omega
  · have unchanged := same.vma id (layout.inorder ▸ member)
    rw [storeEq] at unchanged
    have within := layout.within id member
    have start := kernel.size_le_start
    have moved : world.store.lo id = 0 := (congrArg VmArea.vmStart unchanged).symm.trans starts
    have positive : 0 < posAreaSize := by decide
    omega

omit [DecidableEq ν] in
/-- The areas of unchanged stores contain the same addresses. -/
theorem Unchanged.covers {areas' : List VmaId} (same : Unchanged world final)
    (layout : Layout kernel world.store areas) (layout' : Layout kernel final.store areas')
    (object : RecordId) (address : Nat) :
    Covers final.store areas' object address ↔ Covers world.store areas object address := by
  have equal : areas' = areas := by rw [← layout'.inorder, same.rb, layout.inorder]
  subst equal
  have inorder := layout.inorder
  refine exists_congr fun id => and_congr_right fun member => ?_
  rw [owner, lo, hi, same.vma id (inorder ▸ member)]
  exact Iff.rfl

/-- A segment that a process refuses stays in the store. -/
theorem segAlloc_changes_of_refused (layout : Layout kernel world.store areas)
    (catalogued : Catalogued world.store areas)
    (nonempty : ∀ entry ∈ world.store.sb.names, (world.store.record entry.2).vmList ≠ [])
    (hole : ¬SegAllocFindsNoHole kernel world pid name len tooMany)
    (refused : SegAllocRefused kernel junk world pid name len tooMany refuses) :
    ¬ChangesNothing world (SegAllocFindsNoHole kernel world pid name len tooMany)
      (world.sysPosSegAlloc kernel junk pid name len tooMany refuses) := by
  intro nothing
  obtain ⟨record, task, addr, prev, store, searches, merges, walk, walks, stopped⟩ := refused
  obtain ⟨late, search, member, found⟩ := id searches
  obtain ⟨grown, merged⟩ := Option.isSome_iff_exists.mp merges
  have live := Catalogued.mem_of_lookup search
  obtain ⟨addr', prev', sb, found', searched, same, inside, outcome⟩ :=
    layout.posGetUnmappedArea_spec (pageAlign len)
  obtain ⟨rfl, sameRest⟩ := Prod.mk.inj (Option.some.inj (found.symm.trans found'))
  obtain ⟨rfl, rfl⟩ := Prod.mk.inj sameRest
  have notError : addr ≠ posError := by
    rintro rfl
    exact hole ⟨record, task, prev, _, searches⟩
  obtain ⟨low, high, -, -, free, notLater⟩ := outcome.resolve_left fun error => notError error.1
  have positive : 0 < pageAlign len := Nat.pos_of_ne_zero fun zero => late (.inr (.inl zero))
  obtain ⟨areas', changed, -⟩ := @posCreateOrMergeVma_spec _ kernel junk _ grown areas record searched
    (catalogued.listed _ live) (nonempty _ live) prev inside addr (addr + pageAlign len)
    (Nat.lt_add_of_pos_right positive) low high free notLater merged
  have tasks : (grown.record record).taskList = (world.store.record record).taskList :=
    taskList_posCreateOrMergeVma merged record
  obtain ⟨walkedWorld, walked⟩ : ∃ walkedWorld, World.forTasks { world with store := grown } refuses
      record (fun world pid => world.posMapVma pid addr (addr + pageAlign len) task.mode) =
        some (walkedWorld, false) := by
    rw [World.forTasks]
    dsimp only
    rw [tasks, walks, ← stopped]
    exact ⟨_, rfl⟩
  have called : world.sysPosSegAlloc kernel junk pid name len tooMany refuses =
      some (walkedWorld, posError) := by
    rw [sysPosSegAlloc_of_searches searches, merged, Option.bind_some, walked]
    rfl
  obtain ⟨left, -, -, storeEq, -⟩ := forTasks_spec walked fun _ _ => ⟨rfl, rfl, rfl⟩
  have layout' : Layout kernel walkedWorld.store areas' := by
    rw [storeEq]
    exact changed.layout.setRecord ..
  have covered : Covers walkedWorld.store areas' record addr := by
    have covers := (changed.covers record addr).mpr
      (.inr ⟨rfl, le_rfl, Nat.lt_add_of_pos_right positive⟩)
    rw [storeEq]
    exact covers
  obtain ⟨id, listed, -, above, below⟩ :=
    ((nothing.unchanged walkedWorld called).covers layout layout' record addr).mp covered
  have apart := free id listed
  omega

/-- In every state a `sys_pos_create` changes nothing when it fails exactly if it finds a hole, and so does
a `sys_pos_seg_alloc` that finds a hole and whose segment no process refuses; where the areas are in
order, no other `sys_pos_seg_alloc` does. -/
theorem failed_call_changes_nothing_iff (kernel : Kernel) (junk : Junk) (world : World ν) :
    (∀ pid name size tooMany,
      ChangesNothing world (CreateFindsNoHole kernel world name size tooMany)
          (world.sysPosCreate kernel pid name size tooMany) ↔
        ¬CreateFindsNoHole kernel world name size tooMany) ∧
    ∀ pid name len tooMany refuses,
      (¬SegAllocFindsNoHole kernel world pid name len tooMany →
        ¬SegAllocRefused kernel junk world pid name len tooMany refuses →
          ChangesNothing world (SegAllocFindsNoHole kernel world pid name len tooMany)
            (world.sysPosSegAlloc kernel junk pid name len tooMany refuses)) ∧
      ∀ areas, Layout kernel world.store areas → Catalogued world.store areas →
        (∀ entry ∈ world.store.sb.names, (world.store.record entry.2).vmList ≠ []) →
          ChangesNothing world (SegAllocFindsNoHole kernel world pid name len tooMany)
            (world.sysPosSegAlloc kernel junk pid name len tooMany refuses) →
          ¬SegAllocFindsNoHole kernel world pid name len tooMany ∧
            ¬SegAllocRefused kernel junk world pid name len tooMany refuses := by
  constructor
  · intro pid name size tooMany
    exact ⟨fun nothing missing => create_changes missing nothing, create_changesNothing⟩
  · intro pid name len tooMany refuses
    refine ⟨segAlloc_changesNothing, ?_⟩
    intro areas layout catalogued nonempty nothing
    have hole : ¬SegAllocFindsNoHole kernel world pid name len tooMany := fun missing =>
      segAlloc_changes_of_noHole layout missing nothing
    exact ⟨hole, fun refused =>
      segAlloc_changes_of_refused layout catalogued nonempty hole refused nothing⟩

/-- A request of two gigabytes in the empty store. -/
theorem oneUser_findsNoHole : CreateFindsNoHole plainKernel oneUser () (2 ^ 21) false :=
  ⟨rfl, rfl, _, _, rfl⟩

theorem failed_call_changes_nothing_iff_example :
    ChangesNothing oneUser (SegAllocFindsNoHole plainKernel oneUser 0 () 1 false)
        (oneUser.sysPosSegAlloc plainKernel zeroJunk 0 () 1 false fun _ => false) ∧
      ¬ChangesNothing oneUser (CreateFindsNoHole plainKernel oneUser () (2 ^ 21) false)
        (oneUser.sysPosCreate plainKernel 0 () (2 ^ 21) false) := by
  obtain ⟨create, segAlloc⟩ := failed_call_changes_nothing_iff plainKernel zeroJunk oneUser
  constructor
  · apply (segAlloc 0 () 1 false fun _ => false).1
    · rintro ⟨record, task, prev, store, -, search, -⟩
      cases search
    · rintro ⟨record, task, addr, prev, store, ⟨-, search, -⟩, -⟩
      cases search
  · intro nothing
    exact (create 0 () (2 ^ 21) false).mp nothing oneUser_findsNoHole

/-- The call returns `POS_ERROR` and leaves an object behind. -/
theorem failed_create_changes : ∃ final, oneUser.sysPosCreate plainKernel 0 () (2 ^ 21) false =
    some (final, posError) ∧ oneUser.store.sb.names = [] ∧ final.store.sb.names = [((), 0)] ∧
      ¬Unchanged oneUser final := by
  refine ⟨_, rfl, rfl, rfl, fun same => ?_⟩
  have names := same.names
  cases names

end World

end StorageStack.Pos
