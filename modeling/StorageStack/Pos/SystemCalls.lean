import StorageStack.Pos.Areas

/-!
# System calls of the persistent object store

The calls that create, delete, map and unmap objects and allocate and free their segments, as
processes make them, with the exit of a process.  Each call is atomic, and mapping or unmapping adds
or removes a range of addresses of a process.  A call returns `none` where it reads through a null
pointer or does not end.
-/

namespace StorageStack.Pos

/-- The credentials of a process. -/
structure Cred where
  uid : Nat
  gid : Nat
  groups : List Nat

/-- The rights of a mapped range: `VM_READ` and `VM_WRITE`. -/
structure Rights where
  read : Bool
  write : Bool
deriving DecidableEq

/-- The store and the processes that use it, with the rights of each mapped address of a process. -/
structure World (ν : Type) where
  store : Store ν
  alive : Pid → Bool
  cred : Pid → Cred
  mapped : Pid → Nat → Option Rights

/-- `POS_NORMAL`. -/
def posNormal : Nat := 1

/-- `POS_ACCESS_ERROR`. -/
def posAccessError : Nat := 2

/-- `POS_DEFAULT_MODE`. -/
def posDefaultMode : Nat := 0x660

/-- `POS_USR_MODE`. -/
def posUsrMode (mode : Nat) : Nat := mode >>> 8 &&& 0xF

/-- `POS_GRP_MODE`. -/
def posGrpMode (mode : Nat) : Nat := mode >>> 4 &&& 0xF

/-- `POS_OTH_MODE`. -/
def posOthMode (mode : Nat) : Nat := mode &&& 0xF

/-- The tests of `POS_MAYREAD` and `POS_MAYWRITE`. -/
def rightsOf (mode : Nat) : Rights := ⟨mode.testBit 2, mode.testBit 1⟩

namespace World

variable {ν : Type} [DecidableEq ν] (kernel : Kernel) (junk : Junk) (world : World ν)

/-- `pos_map_vma` where it succeeds. -/
def posMapVma (pid : Pid) (start stop mode : Nat) : World ν :=
  { world with
    mapped := Function.update world.mapped pid fun addr =>
      if start ≤ addr ∧ addr < stop then some (rightsOf mode) else world.mapped pid addr }

/-- `do_munmap`. -/
def doMunmap (pid : Pid) (start stop : Nat) : World ν :=
  { world with
    mapped := Function.update world.mapped pid fun addr =>
      if start ≤ addr ∧ addr < stop then none else world.mapped pid addr }

/-- `pos_unmap_vma`. -/
def posUnmapVma (pid : Pid) (id : VmaId) : World ν :=
  world.doMunmap pid (world.store.lo id) (world.store.hi id)

/-- `pos_ns_search`. -/
def posNsSearch (name : ν) : Option RecordId := world.store.sb.names.lookup name

/-- `PAGE_ALIGN`. -/
def pageAlign (len : Nat) : Nat := (len + (pageSize - 1)) % 2 ^ 64 / pageSize * pageSize

/-- What `pos_init` puts into a new superblock. -/
def posInit : Superblock ν where
  rb := .leaf
  vmNext := none
  findCache := none
  cachedHoleSize := posAreaSize
  freeAreaCache := kernel.areaStart
  nsCount := 0
  totalVm := 0
  vmCount := 0
  names := []

/-- The store when the machine starts. -/
def start (cred : Pid → Cred) (record : RecordId → NsRecord) (vma : VmaId → VmArea) : World ν where
  store := ⟨posInit kernel, vma, record, 0, 0⟩
  alive := fun _ => true
  cred := cred
  mapped := fun _ _ => none

/-- `sys_pos_create`, which ignores the result of `pos_map_vma`; `tooMany` is the test of the number of
mappings of the caller. -/
def sysPosCreate (pid : Pid) (name : ν) (size : Nat) (tooMany : Bool) :
    Option (World ν × Nat) :=
  if tooMany then some (world, posError)
  else if (world.posNsSearch name).isSome then some (world, posError)
  else
    let record := world.store.nextRecord
    let id := world.store.nextVma
    let bytes := size * 1024 % 2 ^ 64
    let store := { world.store with
      sb := { world.store.sb with names := (name, record) :: world.store.sb.names }
      nextRecord := record + 1
      nextVma := id + 1 }
    match store.posGetUnmappedArea kernel bytes with
    | none => none
    | some (vmStart, _, store) =>
        let store := { store with
          vma := Function.update store.vma id
            { vmStart := vmStart, vmEnd := (vmStart + bytes) % 2 ^ 64, nrPages := 1,
              mapArray := MapArray.new 1 (vmStart / pageSize), nsRecord := record,
              vmNext := none } }
        let store := store.setRecord record fun _ =>
          { vmList := [id], primeSeg := vmStart, uid := (world.cred pid).uid,
            gid := (world.cred pid).gid, mode := posDefaultMode
            taskList := [⟨pid, posUsrMode posDefaultMode⟩] }
        let store := { store with sb := { store.sb with vmCount := store.sb.vmCount + 1 } }
        let store := store.posInsertVmArea kernel id
        let store := { store with sb := { store.sb with nsCount := store.sb.nsCount + 1 } }
        some ({ world with store := store }.posMapVma pid (store.lo id) (store.hi id)
          (posUsrMode posDefaultMode), vmStart)

/-- The loop of `sys_pos_delete` over the areas of the object. -/
def deleteAreas (pid : Pid) (record : RecordId) : Nat → World ν → Bool × World ν
  | 0, world => (true, world)
  | rounds + 1, world =>
      match (world.store.record record).vmList with
      | [] => (true, world)
      | id :: _ =>
          let place := world.store.posFindVmaPrev (world.store.lo id)
          if place.1 = some id then
            let store := world.store.posRemoveVmArea kernel id place.2
            let world := { world with store := store }.posUnmapVma pid id
            let store := world.store.setRecord record fun desc =>
              { desc with vmList := desc.vmList.erase id }
            let store := { store with sb := { store.sb with vmCount := store.sb.vmCount - 1 } }
            deleteAreas pid record rounds { world with store := store }
          else (false, world)

/-- `sys_pos_delete`. -/
def sysPosDelete (pid : Pid) (name : ν) : Option (World ν × Nat) :=
  match world.posNsSearch name with
  | none => some (world, posError)
  | some record =>
      let names := world.store.sb.names.filter fun entry => entry.1 ≠ name
      let world := { world with store := { world.store with
        sb := { world.store.sb with names := names } } }
      match deleteAreas kernel pid record (world.store.record record).vmList.length world with
      | (false, world) => some (world, posError)
      | (true, world) =>
          let count := world.store.sb.nsCount - 1
          let sb := if count = 0 then posInit kernel else { world.store.sb with nsCount := count }
          some ({ world with store := { world.store with sb := sb } }, posNormal)

/-- The mode that `sys_pos_map` grants. -/
def accessMode (desc : NsRecord) (cred : Cred) : Nat :=
  if desc.uid = cred.uid then posUsrMode desc.mode
  else if desc.gid ∈ cred.groups then posGrpMode desc.mode
  else posOthMode desc.mode

/-- Map the areas of a list. -/
def mapAreas (pid : Pid) (mode : Nat) (areas : List VmaId) : World ν :=
  areas.foldl (fun world id => world.posMapVma pid (world.store.lo id) (world.store.hi id) mode) world

/-- Unmap the areas of a list. -/
def unmapAreas (pid : Pid) (areas : List VmaId) : World ν :=
  areas.foldl (fun world id => world.posUnmapVma pid id) world

/-- The search for a process in a task list. -/
def taskOf (pid : Pid) (tasks : List TaskPid) : Option TaskPid :=
  tasks.find? fun task => task.pidNr = pid

/-- Unlink the first entry of a process from a task list. -/
def dropTask (pid : Pid) (tasks : List TaskPid) : List TaskPid :=
  tasks.eraseP fun task => task.pidNr = pid

/-- `sys_pos_map`. -/
def sysPosMap (pid : Pid) (name : ν) (tooMany : Bool) : Option (World ν × Nat) :=
  if tooMany then some (world, 2 ^ 64 - 1)
  else
    match world.posNsSearch name with
    | none => some (world, 0)
    | some record =>
        let mode := accessMode (world.store.record record) (world.cred pid)
        if mode = 0 then some (world, posAccessError)
        else
          let store := world.store.setRecord record fun desc =>
            { desc with taskList := ⟨pid, mode⟩ :: desc.taskList }
          some ({ world with store := store }.mapAreas pid mode (store.record record).vmList,
            (store.record record).primeSeg)

/-- `sys_pos_unmap`. -/
def sysPosUnmap (pid : Pid) (name : ν) : Option (World ν × Nat) :=
  match world.posNsSearch name with
  | none => some (world, posError)
  | some record =>
      match taskOf pid (world.store.record record).taskList with
      | none => some (world, posError)
      | some _ =>
          let store := world.store.setRecord record fun desc =>
            { desc with taskList := dropTask pid desc.taskList }
          some ({ world with store := store }.unmapAreas pid (store.record record).vmList, posNormal)

/-- What a walk over a task list ends with: the list it leaves, the processes in which it has mapped or
unmapped the range, and whether none of them refused. -/
structure Walk where
  left : List TaskPid
  visited : List Pid
  done : Bool

/-- The walk over the task list in `sys_pos_seg_alloc` and `sys_pos_seg_free`.  An entry whose process
is gone is unlinked; then the walk goes on after the entry that follows, which stays before the place
where the next dead entry is unlinked.  The walk ends at a process in which the range cannot be mapped. -/
def walkTasks (alive refuses : Pid → Bool) : List TaskPid → List TaskPid → Option Walk
  | skipped, [] => some ⟨skipped, [], true⟩
  | skipped, task :: rest =>
      if alive task.pidNr then
        if refuses task.pidNr then some ⟨skipped ++ task :: rest, [], false⟩
        else
          (walkTasks alive refuses [] rest).map fun walk =>
            ⟨skipped ++ task :: walk.left, task.pidNr :: walk.visited, walk.done⟩
      else
        match rest with
        | [] => none
        | next :: rest => walkTasks alive refuses [next] rest

/-- Walk over the task list of a record and map or unmap a range in each process on the way. -/
def forTasks (refuses : Pid → Bool) (record : RecordId) (act : World ν → Pid → World ν) :
    Option (World ν × Bool) :=
  match walkTasks world.alive refuses [] (world.store.record record).taskList with
  | none => none
  | some walk =>
      let store := world.store.setRecord record fun desc => { desc with taskList := walk.left }
      some (walk.visited.foldl act { world with store := store }, walk.done)

/-- `sys_pos_seg_alloc`; `refuses` tells in which processes `pos_map_vma` fails. -/
def sysPosSegAlloc (pid : Pid) (name : ν) (len : Nat) (tooMany : Bool) (refuses : Pid → Bool) :
    Option (World ν × Nat) :=
  let bytes := pageAlign len
  if len = 0 ∨ bytes = 0 ∨ posAreaSize < bytes ∨ tooMany then some (world, posError)
  else
    match world.posNsSearch name with
    | none => some (world, posError)
    | some record =>
        match taskOf pid (world.store.record record).taskList with
        | none => some (world, posError)
        | some task =>
            match world.store.posGetUnmappedArea kernel bytes with
            | none => none
            | some (vmStart, prev, store) =>
                let next := prev.bind store.next
                match store.posCreateOrMergeVma kernel junk record prev next vmStart
                    (vmStart + bytes) with
                | none => none
                | some store =>
                    match { world with store := store }.forTasks refuses record fun world pid =>
                        world.posMapVma pid vmStart (vmStart + bytes) task.mode with
                    | none => none
                    | some (world, false) => some (world, posError)
                    | some (world, true) => some (world, vmStart)

/-- `sys_pos_seg_free`. -/
def sysPosSegFree (pid : Pid) (name : ν) (addr len : Nat) : Option (World ν × Nat) :=
  let bytes := pageAlign len
  if addr % pageSize ≠ 0 ∨ bytes = 0 then some (world, posError)
  else
    match world.posNsSearch name with
    | none => some (world, posError)
    | some record =>
        match taskOf pid (world.store.record record).taskList with
        | none => some (world, posError)
        | some _ =>
            match world.store.posFindVmaPrev addr with
            | (none, _) => some (world, posError)
            | (some vma, prev) =>
                if (world.store.vma vma).nsRecord ≠ record then some (world, posError)
                else if (world.store.record record).primeSeg = addr then some (world, posError)
                else
                  match world.store.posDeleteOrSplitVma kernel junk record vma prev addr bytes with
                  | none => none
                  | some (false, store) => some ({ world with store := store }, posError)
                  | some (true, store) =>
                      match { world with store := store }.forTasks (fun _ => false) record
                          fun world pid => world.doMunmap pid addr (addr + bytes) with
                      | none => none
                      | some (world, _) => some (world, posNormal)

/-- The loop of `pos_process_exit` over all areas. -/
def exitWalk (pid : Pid) : Nat → Option VmaId → World ν → Option (World ν)
  | _, none, world => some world
  | 0, some _, _ => none
  | rounds + 1, some id, world =>
      let record := (world.store.vma id).nsRecord
      let world :=
        match taskOf pid (world.store.record record).taskList with
        | none => world
        | some _ =>
            let store := world.store.setRecord record fun desc =>
              { desc with taskList := dropTask pid desc.taskList }
            { world with store := store }.unmapAreas pid (store.record record).vmList
      exitWalk pid rounds (world.store.next id) world

/-- `pos_process_exit`, after which the process is gone. -/
def posProcessExit (pid : Pid) : Option (World ν) :=
  (exitWalk pid (world.store.nextVma + 1) world.store.sb.vmNext world).map fun world =>
    { world with alive := Function.update world.alive pid false }

/-- A process dies without `pos_process_exit`. -/
def die (pid : Pid) : World ν :=
  { world with alive := Function.update world.alive pid false }

end World

/-- A system call of a process, with what the kernel decides in it; the exit of a process; or its
sudden death. -/
inductive Call (ν : Type) where
  | create (pid : Pid) (name : ν) (size : Nat) (tooMany : Bool)
  | delete (pid : Pid) (name : ν)
  | map (pid : Pid) (name : ν) (tooMany : Bool)
  | unmap (pid : Pid) (name : ν)
  | segAlloc (pid : Pid) (name : ν) (len : Nat) (tooMany : Bool) (refuses : Pid → Bool)
  | segFree (pid : Pid) (name : ν) (addr len : Nat)
  | exit (pid : Pid)
  | die (pid : Pid)

namespace World

variable {ν : Type} [DecidableEq ν] (kernel : Kernel) (junk : Junk) (world : World ν)

/-- Make a call; the number is its result. -/
def call : Call ν → Option (World ν × Nat)
  | .create pid name size tooMany => world.sysPosCreate kernel pid name size tooMany
  | .delete pid name => world.sysPosDelete kernel pid name
  | .map pid name tooMany => world.sysPosMap pid name tooMany
  | .unmap pid name => world.sysPosUnmap pid name
  | .segAlloc pid name len tooMany refuses =>
      world.sysPosSegAlloc kernel junk pid name len tooMany refuses
  | .segFree pid name addr len => world.sysPosSegFree kernel junk pid name addr len
  | .exit pid => (world.posProcessExit pid).map fun world => (world, posNormal)
  | .die pid => some (world.die pid, posNormal)

/-- The world after a call. -/
def step (operation : Call ν) : Option (World ν) := (world.call kernel junk operation).map Prod.fst

end World

end StorageStack.Pos
