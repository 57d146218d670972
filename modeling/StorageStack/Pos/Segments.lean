import StorageStack.Pos.Objects

/-!
# Segments of objects

What the calls that allocate and free a segment do to the areas, the catalogue and the address spaces
of the processes in the task list of the object.
-/

namespace StorageStack.Pos

open IntervalTree LinkedChain Store

variable {ν : Type} {kernel : Kernel} {junk : Junk} {store other : Store ν}
  {areas areas' : List VmaId} {record : RecordId}

namespace World

variable {world final : World ν} {pid : Pid} {name : ν} {result : Nat}

theorem pageAlign_mod (len : Nat) : pageAlign len % pageSize = 0 := Nat.mul_mod_left ..

theorem pageAlign_lt (len : Nat) : pageAlign len < 2 ^ 64 := by
  have bound : (len + (pageSize - 1)) % 2 ^ 64 < 2 ^ 64 := Nat.mod_lt _ (by decide)
  exact (Nat.div_mul_le_self ..).trans_lt bound

/-- A walk over the task list changes the list and the address spaces. -/
theorem forTasks_spec {refuses : Pid → Bool} {act : World ν → Pid → World ν} {done : Bool}
    (walk : world.forTasks refuses record act = some (final, done))
    (keeps : ∀ (world : World ν) pid, (act world pid).store = world.store ∧
      (act world pid).alive = world.alive ∧ (act world pid).cred = world.cred) :
    ∃ walked, walkTasks world.alive refuses [] (world.store.record record).taskList = some walked ∧
      done = walked.done ∧
      final.store = world.store.setRecord record (fun desc =>
        { desc with taskList := walked.left }) ∧
      final.alive = world.alive ∧ final.cred = world.cred ∧
      final = walked.visited.foldl act { world with
        store := world.store.setRecord record fun desc => { desc with taskList := walked.left } } := by
  have fold : ∀ (visited : List Pid) (before : World ν),
      (visited.foldl act before).store = before.store ∧
      (visited.foldl act before).alive = before.alive ∧
      (visited.foldl act before).cred = before.cred := by
    intro visited
    induction visited with
    | nil => exact fun before => ⟨rfl, rfl, rfl⟩
    | cons pid visited ih =>
        intro before
        obtain ⟨store, alive, cred⟩ := ih (act before pid)
        obtain ⟨store', alive', cred'⟩ := keeps before pid
        exact ⟨store.trans store', alive.trans alive', cred.trans cred'⟩
  rw [forTasks] at walk
  split at walk
  · cases walk
  · next walked walkedEq =>
      obtain ⟨rfl, rfl⟩ := Prod.mk.inj (Option.some.inj walk)
      obtain ⟨store, alive, cred⟩ := fold walked.visited { world with
        store := world.store.setRecord record fun desc => { desc with taskList := walked.left } }
      exact ⟨walked, walkedEq, rfl, store, alive, cred, rfl⟩

theorem mapped_foldl_posMapVma (start stop mode : Nat) (visited : List Pid) (process : Pid)
    (address : Nat) : ∀ before : World ν, (visited.foldl (fun world pid =>
        world.posMapVma pid start stop mode) before).mapped process address =
      if process ∈ visited ∧ start ≤ address ∧ address < stop then some (rightsOf mode)
      else before.mapped process address := by
  induction visited with
  | nil =>
      intro before
      simp
  | cons pid visited ih =>
      intro before
      rw [List.foldl_cons, ih, mapped_posMapVma]
      by_cases inside : start ≤ address ∧ address < stop
      · by_cases here : process = pid
        · simp [here, inside]
        · simp [here, inside]
      · simp [inside]

theorem mapped_foldl_doMunmap (start stop : Nat) (visited : List Pid) (process : Pid)
    (address : Nat) : ∀ before : World ν, (visited.foldl (fun world pid =>
        world.doMunmap pid start stop) before).mapped process address =
      if process ∈ visited ∧ start ≤ address ∧ address < stop then none
      else before.mapped process address := by
  induction visited with
  | nil =>
      intro before
      simp
  | cons pid visited ih =>
      intro before
      rw [List.foldl_cons, ih, mapped_doMunmap]
      by_cases inside : start ≤ address ∧ address < stop
      · by_cases here : process = pid
        · simp [here, inside]
        · simp [here, inside]
      · simp [inside]

/-- What `sys_pos_seg_alloc` does with a hole. -/
structure Allocated (kernel : Kernel) (world : World ν) (areas : List VmaId) (record : RecordId)
    (bytes addr mode : Nat) (refuses : Pid → Bool) (walked : Walk) (final : World ν)
    (areas' : List VmaId) : Prop where
  layout : Layout kernel final.store areas'
  catalogued : Catalogued final.store areas'
  covers : ∀ object address, Covers final.store areas' object address ↔
    Covers world.store areas object address ∨
      object = record ∧ addr ≤ address ∧ address < addr + bytes
  names : final.store.sb.names = world.store.sb.names
  records : ∀ object, { final.store.record object with vmList := [], taskList := [] } =
    { world.store.record object with vmList := [], taskList := [] }
  walk : walkTasks world.alive refuses [] (world.store.record record).taskList = some walked
  left : (final.store.record record).taskList = walked.left
  others : ∀ object, object ≠ record →
    (final.store.record object).taskList = (world.store.record object).taskList
  aligned : Aligned world.store areas → Aligned final.store areas'
  alive : final.alive = world.alive
  cred : final.cred = world.cred
  mapped : ∀ process address, final.mapped process address =
    if process ∈ walked.visited ∧ addr ≤ address ∧ address < addr + bytes
      then some (rightsOf mode) else world.mapped process address

theorem sysPosSegAlloc_spec [DecidableEq ν] (layout : Layout kernel world.store areas)
    (catalogued : Catalogued world.store areas) {len : Nat} {tooMany : Bool} {refuses : Pid → Bool}
    (ready : ¬(len = 0 ∨ pageAlign len = 0 ∨ posAreaSize < pageAlign len ∨ tooMany = true) →
      ∀ record task, world.posNsSearch name = some record →
      taskOf pid (world.store.record record).taskList = some task →
        (world.store.record record).vmList ≠ [] ∧
        ∀ addr prev store, world.store.posGetUnmappedArea kernel (pageAlign len) =
          some (addr, prev, store) → addr ≠ posError)
    (call : world.sysPosSegAlloc kernel junk pid name len tooMany refuses = some (final, result)) :
    (final = world ∧ result = posError) ∨
      ∃ record task addr prev store walked areas',
        ¬(len = 0 ∨ pageAlign len = 0 ∨ posAreaSize < pageAlign len ∨ tooMany = true) ∧
        world.posNsSearch name = some record ∧ taskOf pid (world.store.record record).taskList = some task ∧
        world.store.posGetUnmappedArea kernel (pageAlign len) = some (addr, prev, store) ∧
        addr ≠ posError ∧ result = (if walked.done then addr else posError) ∧
        Allocated kernel world areas record (pageAlign len) addr task.mode refuses walked final
          areas' ∧
        (Untouched world.store areas → store.RoomInMap record prev (prev.bind store.next) addr
          (addr + pageAlign len) → Untouched final.store areas') := by
  rw [sysPosSegAlloc] at call
  dsimp only at call
  by_cases early : len = 0 ∨ pageAlign len = 0 ∨ posAreaSize < pageAlign len ∨ tooMany = true
  · rw [if_pos early] at call
    cases call
    exact Or.inl ⟨rfl, rfl⟩
  · rw [if_neg early] at call
    cases search : world.posNsSearch name with
    | none =>
        rw [search] at call
        cases call
        exact Or.inl ⟨rfl, rfl⟩
    | some record =>
        rw [search] at call
        dsimp only at call
        cases member : taskOf pid (world.store.record record).taskList with
        | none =>
            rw [member] at call
            cases call
            exact Or.inl ⟨rfl, rfl⟩
        | some task =>
            rw [member] at call
            obtain ⟨nonempty, found⟩ := ready early record task search member
            obtain ⟨addr, prev, sb, searchEq, layout₁, same, inside, outcome⟩ :=
              layout.posGetUnmappedArea_spec (pageAlign len)
            have notError := found addr prev _ searchEq
            obtain ⟨low, high, known, cache, free, notLater⟩ :=
              outcome.resolve_left fun error => notError error.1
            have live := Catalogued.mem_of_lookup search
            have positive : 0 < pageAlign len :=
              Nat.pos_of_ne_zero fun zero => early (Or.inr (Or.inl zero))
            rw [searchEq] at call
            dsimp only at call
            split at call
            · cases call
            · next grownStore merged =>
                obtain ⟨areas', grown⟩ := @posCreateOrMergeVma_spec _ kernel junk
                  { world.store with sb := sb } grownStore areas record layout₁
                  (catalogued.listed _ live) nonempty prev inside addr (addr + pageAlign len)
                  (Nat.lt_add_of_pos_right positive) low high free notLater merged
                have finish : ∀ done, World.forTasks { world with store := grownStore } refuses
                    record (fun world pid =>
                      world.posMapVma pid addr (addr + pageAlign len) task.mode) =
                        some (final, done) →
                    ∃ walked, done = walked.done ∧ Allocated kernel world areas record
                      (pageAlign len) addr task.mode refuses walked final areas' ∧
                      (Untouched world.store areas → RoomInMap { world.store with sb := sb } record
                        prev (prev.bind (Store.next { world.store with sb := sb })) addr
                        (addr + pageAlign len) → Untouched final.store areas') := by
                  intro done walk
                  obtain ⟨walked, walkEq, doneEq, storeEq, alive, cred, finalEq⟩ :=
                    forTasks_spec walk fun _ _ => ⟨rfl, rfl, rfl⟩
                  have tasks : ∀ object, (grownStore.record object).taskList =
                      (world.store.record object).taskList := by
                    intro object
                    have eq := congrArg NsRecord.taskList (grown.changed.records object)
                    exact eq
                  have changed := setTasks_of_records record walked.left grown.changed.records
                  have start : Aligned world.store areas → addr % pageSize = 0 :=
                    fun aligned => aligned.known known
                  have kept := catalogued.withCaches same.names same.nsCount
                  refine ⟨walked, doneEq, ⟨?_, ?_, ?_, ?_, fun object => ?_, ?_, ?_,
                    fun object ne => ?_, fun aligned => ?_, alive, cred, fun process address => ?_⟩,
                    fun untouched room => ?_⟩
                  · rw [storeEq]
                    exact grown.changed.layout.setRecord ..
                  · rw [storeEq]
                    exact (grown.changed.catalogued kept
                      ⟨(name, record), same.names.symm ▸ live, rfl⟩).setTaskList record
                        fun _ => walked.left
                  · rw [storeEq]
                    exact grown.changed.covers
                  · rw [storeEq]
                    exact grown.changed.names.trans same.names
                  · rw [storeEq]
                    exact changed object
                  · rw [← tasks]
                    exact walkEq
                  · rw [storeEq, record_setRecord_self]
                  · rw [storeEq, record_setRecord_of_ne ne]
                    exact tasks object
                  · have whole := pageAlign_mod len
                    have stop : (addr + pageAlign len) % pageSize = 0 := by
                      rw [Nat.add_mod, start aligned, whole, Nat.add_zero, Nat.zero_mod]
                    have aligned' := grown.aligned ⟨aligned.area, cache ▸ stop⟩ (start aligned) stop
                    rw [storeEq]
                    exact ⟨aligned'.area, aligned'.cache⟩
                  · rw [finalEq]
                    exact mapped_foldl_posMapVma ..
                  · rw [storeEq]
                    exact grown.untouched untouched room
                split at call
                · cases call
                · next walkedWorld walk =>
                    obtain ⟨rfl, rfl⟩ := Prod.mk.inj (Option.some.inj call)
                    obtain ⟨walked, doneEq, allocated, rest⟩ := finish false walk
                    exact Or.inr ⟨record, task, addr, prev, _, walked, areas', early, rfl, member,
                      searchEq,
                      notError, by rw [← doneEq]; rfl, allocated, rest⟩
                · next walkedWorld walk =>
                    obtain ⟨rfl, rfl⟩ := Prod.mk.inj (Option.some.inj call)
                    obtain ⟨walked, doneEq, allocated, rest⟩ := finish true walk
                    exact Or.inr ⟨record, task, addr, prev, _, walked, areas', early, rfl, member,
                      searchEq,
                      notError, by rw [← doneEq]; rfl, allocated, rest⟩

/-- What `sys_pos_seg_free` does to a segment at the end of an area. -/
structure Freed (kernel : Kernel) (world : World ν) (areas : List VmaId) (record : RecordId)
    (bytes addr : Nat) (walked : Walk) (final : World ν) (areas' : List VmaId) : Prop where
  layout : Layout kernel final.store areas'
  catalogued : Catalogued final.store areas'
  covers : ∀ object address, Covers final.store areas' object address ↔
    Covers world.store areas object address ∧ ¬(addr ≤ address ∧ address < addr + bytes)
  names : final.store.sb.names = world.store.sb.names
  records : ∀ object, { final.store.record object with vmList := [], taskList := [] } =
    { world.store.record object with vmList := [], taskList := [] }
  walk : walkTasks world.alive (fun _ => false) [] (world.store.record record).taskList = some walked
  left : (final.store.record record).taskList = walked.left
  others : ∀ object, object ≠ record →
    (final.store.record object).taskList = (world.store.record object).taskList
  aligned : Aligned world.store areas → Aligned final.store areas'
  untouched : Untouched world.store areas → Untouched final.store areas'
  alive : final.alive = world.alive
  cred : final.cred = world.cred
  mapped : ∀ process address, final.mapped process address =
    if process ∈ walked.visited ∧ addr ≤ address ∧ address < addr + bytes then none
      else world.mapped process address

/-- `pos_find_vma_prev` names an area that ends past the address, with the areas around it. -/
theorem split_of_posFindVmaPrev (layout : Layout kernel store areas) {addr : Nat} {id : VmaId}
    {prev : Option VmaId} (found : store.posFindVmaPrev addr = (some id, prev)) :
    addr < store.hi id ∧ ∃ front back, areas = front ++ id :: back ∧ prev = front.getLast? := by
  rw [layout.posFindVmaPrev_eq] at found
  obtain ⟨first, last⟩ := Prod.mk.inj found
  have split := layout.spaced.split addr
  cases later : behind store.hi addr areas with
  | nil =>
      rw [later] at first
      cases first
  | cons other back =>
      rw [later] at first split
      obtain rfl := Option.some.inj first
      have member : other ∈ behind store.hi addr areas := by
        rw [later]
        exact List.mem_cons_self ..
      exact ⟨(mem_behind.mp member).2, _, back, split, last.symm⟩

/-- The walk of `sys_pos_seg_free` after the areas have been cut. -/
theorem freed_of_shrunk {shrunkStore : Store ν} {addr bytes : Nat} {done : Bool}
    (catalogued : Catalogued world.store areas) (live : (name, record) ∈ world.store.sb.names)
    (whole : addr % pageSize = 0)
    (shrunk : Shrunk kernel world.store areas record addr (addr + bytes) shrunkStore areas')
    (walk : World.forTasks { world with store := shrunkStore } (fun _ => false) record
      (fun world pid => world.doMunmap pid addr (addr + bytes)) = some (final, done)) :
    ∃ walked areas', Freed kernel world areas record bytes addr walked final areas' := by
  obtain ⟨walked, walkEq, _, storeEq, alive, cred, finalEq⟩ :=
    forTasks_spec walk fun _ _ => ⟨rfl, rfl, rfl⟩
  have tasks : ∀ object, (shrunkStore.record object).taskList =
      (world.store.record object).taskList := by
    intro object
    have eq := congrArg NsRecord.taskList (shrunk.changed.records object)
    exact eq
  refine ⟨walked, areas', ⟨?_, ?_, ?_, ?_, fun object => ?_, ?_, ?_, fun object ne => ?_,
    fun aligned => ?_, fun untouched => ?_, alive, cred, fun process address => ?_⟩⟩
  · rw [storeEq]
    exact shrunk.changed.layout.setRecord ..
  · rw [storeEq]
    exact (shrunk.changed.catalogued catalogued ⟨_, live, rfl⟩).setTaskList _ fun _ => walked.left
  · rw [storeEq]
    exact shrunk.changed.covers
  · rw [storeEq]
    exact shrunk.changed.names
  · rw [storeEq]
    exact setTasks_of_records record walked.left shrunk.changed.records object
  · rw [← tasks]
    exact walkEq
  · rw [storeEq, record_setRecord_self]
  · rw [storeEq, record_setRecord_of_ne ne]
    exact tasks object
  · rw [storeEq]
    have aligned' := shrunk.aligned aligned whole
    exact ⟨aligned'.area, aligned'.cache⟩
  · rw [storeEq]
    exact shrunk.untouched untouched
  · rw [finalEq]
    exact mapped_foldl_doMunmap ..

theorem sysPosSegFree_spec [DecidableEq ν] (layout : Layout kernel world.store areas)
    (catalogued : Catalogued world.store areas) {addr len : Nat}
    (outside : ¬(addr % pageSize ≠ 0 ∨ pageAlign len = 0) →
      ∀ record task id prev, world.posNsSearch name = some record →
      taskOf pid (world.store.record record).taskList = some task →
      world.store.posFindVmaPrev addr = (some id, prev) → world.store.owner id = record →
      (world.store.record record).primeSeg ≠ addr →
        (world.store.lo id = addr → pageAlign len ≤ world.store.hi id - world.store.lo id) ∧
        (world.store.lo id < addr → world.store.hi id ≤ (addr + pageAlign len) % 2 ^ 64))
    (call : world.sysPosSegFree kernel junk pid name addr len = some (final, result)) :
    (final = world ∧ result = posError) ∨
      ∃ record task id prev walked areas', result = posNormal ∧
        ¬(addr % pageSize ≠ 0 ∨ pageAlign len = 0) ∧
        world.posNsSearch name = some record ∧
        taskOf pid (world.store.record record).taskList = some task ∧
        world.store.posFindVmaPrev addr = (some id, prev) ∧ id ∈ areas ∧
        world.store.owner id = record ∧ (world.store.record record).primeSeg ≠ addr ∧
        world.store.lo id ≤ addr ∧ addr + pageAlign len = world.store.hi id ∧
        Freed kernel world areas record (pageAlign len) addr walked final areas' := by
  rw [sysPosSegFree] at call
  by_cases early : addr % pageSize ≠ 0 ∨ pageAlign len = 0
  · rw [if_pos early] at call
    cases call
    exact Or.inl ⟨rfl, rfl⟩
  · rw [if_neg early] at call
    cases search : world.posNsSearch name with
    | none =>
        rw [search] at call
        cases call
        exact Or.inl ⟨rfl, rfl⟩
    | some record =>
        rw [search] at call
        dsimp only at call
        cases member : taskOf pid (world.store.record record).taskList with
        | none =>
            rw [member] at call
            cases call
            exact Or.inl ⟨rfl, rfl⟩
        | some task =>
            rw [member] at call
            dsimp only at call
            split at call
            · cases call
              exact Or.inl ⟨rfl, rfl⟩
            · next id prev found =>
                obtain ⟨inside, front, back, rfl, rfl⟩ := split_of_posFindVmaPrev layout found
                split at call
                · cases call
                  exact Or.inl ⟨rfl, rfl⟩
                · next own =>
                    obtain rfl : world.store.owner id = record := not_not.mp own
                    split at call
                    · cases call
                      exact Or.inl ⟨rfl, rfl⟩
                    · next notPrime =>
                      obtain ⟨notFirst, notMiddle⟩ :=
                        outside early _ task id _ search member found rfl notPrime
                      split at call
                      · cases call
                      · next store shrink =>
                          obtain ⟨_, rfl⟩ | ⟨done, _⟩ := posDeleteOrSplitVma_spec layout inside
                            (pageAlign_lt len) notFirst notMiddle shrink
                          · cases call
                            exact Or.inl ⟨rfl, rfl⟩
                          · cases done
                      · next store shrink =>
                          obtain ⟨done, _⟩ | ⟨_, low, stop, areas', shrunk⟩ :=
                            posDeleteOrSplitVma_spec layout inside (pageAlign_lt len) notFirst
                              notMiddle shrink
                          · cases done
                          · split at call
                            · cases call
                            · next walkedWorld done walk =>
                                obtain ⟨rfl, rfl⟩ := Prod.mk.inj (Option.some.inj call)
                                have whole : addr % pageSize = 0 :=
                                  not_not.mp fun ne => early (Or.inl ne)
                                obtain ⟨walked, areas', freed⟩ := freed_of_shrunk catalogued
                                  (Catalogued.mem_of_lookup search) whole shrunk walk
                                exact Or.inr ⟨_, task, id, _, walked, areas', rfl, early, rfl, member, found,
                                  by simp, rfl, notPrime, low, stop, freed⟩

end World

end StorageStack.Pos
