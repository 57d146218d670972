import StorageStack.IntervalTree
import StorageStack.Pos.MapArray

/-!
# Areas of the persistent object store

The store keeps its memory areas in a search tree, in a list in address order, in a list for each
object, and in a one-entry cache.  The file follows the functions of `pos.c` that search these
structures and change them.  The tree is rebalanced by the kernel's functions, which keep the order of
the nodes.
-/

namespace StorageStack.Pos

open IntervalTree

abbrev VmaId := Nat
abbrev RecordId := Nat
abbrev Pid := Nat

/-- `PAGE_SIZE`. -/
def pageSize : Nat := 4096

/-- `POS_AREA_SIZE`. -/
def posAreaSize : Nat := 2 ^ 30

/-- `POS_ERROR`, as an address and as a result. -/
def posError : Nat := 0

/-- What `pos.c` takes from the kernel: `POS_AREA_START`, computed from `TASK_SIZE`, and the functions
that rebalance a tree after an insertion and remove a node, which keep the order of the others. -/
structure Kernel where
  areaStart : Nat
  start_aligned : areaStart % pageSize = 0
  size_le_start : posAreaSize ≤ areaStart
  end_le : posAreaSize + areaStart ≤ 2 ^ 47
  rbInsertColor : SearchTree VmaId → SearchTree VmaId
  rbErase : VmaId → SearchTree VmaId → SearchTree VmaId
  inorder_rbInsertColor : ∀ tree, (rbInsertColor tree).inorder = tree.inorder
  inorder_rbErase : ∀ id tree, (rbErase id tree).inorder = tree.inorder.erase id

/-- `POS_AREA_END`. -/
def Kernel.areaEnd (kernel : Kernel) : Nat := posAreaSize + kernel.areaStart

/-- `struct pos_vm_area`; the pointers to its neighbours in the object's list are in that list. -/
structure VmArea where
  vmStart : Nat
  vmEnd : Nat
  nrPages : Nat
  mapArray : MapArray
  nsRecord : RecordId
  vmNext : Option VmaId

/-- `struct pos_task_pid`. -/
structure TaskPid where
  pidNr : Pid
  mode : Nat
deriving DecidableEq

/-- `struct pos_ns_record` with its `struct pos_descriptor`. -/
structure NsRecord where
  vmList : List VmaId
  primeSeg : Nat
  uid : Nat
  gid : Nat
  mode : Nat
  taskList : List TaskPid

/-- `struct pos_superblock`, with the namespace as a finite map and the counters of areas and pages as
integers. -/
structure Superblock (ν : Type) where
  rb : SearchTree VmaId
  vmNext : Option VmaId
  findCache : Option VmaId
  cachedHoleSize : Nat
  freeAreaCache : Nat
  nsCount : Nat
  totalVm : Int
  vmCount : Int
  names : List (ν × RecordId)

/-- The store: the superblock and the heap of areas and records, with the next free ids. -/
structure Store (ν : Type) where
  sb : Superblock ν
  vma : VmaId → VmArea
  record : RecordId → NsRecord
  nextVma : VmaId
  nextRecord : RecordId

namespace Store

variable {ν : Type} (kernel : Kernel) (junk : Junk) (store : Store ν)

/-- The first address of an area. -/
def lo (id : VmaId) : Nat := (store.vma id).vmStart

/-- The address after an area. -/
def hi (id : VmaId) : Nat := (store.vma id).vmEnd

/-- The area after an area in the list of all areas. -/
def next (id : VmaId) : Option VmaId := (store.vma id).vmNext

/-- Change an area. -/
def setVma (id : VmaId) (change : VmArea → VmArea) : Store ν :=
  { store with vma := Function.update store.vma id (change (store.vma id)) }

/-- Change a record. -/
def setRecord (id : RecordId) (change : NsRecord → NsRecord) : Store ν :=
  { store with record := Function.update store.record id (change (store.record id)) }

/-- Allocate an area. -/
def newVma (area : VmArea) : Store ν :=
  { store with
    vma := Function.update store.vma store.nextVma area
    nextVma := store.nextVma + 1 }

/-! ## Searching -/

/-- `pos_find_vma`: the first area that ends past the address, and the cache. -/
def posFindVma (addr : Nat) : Option VmaId × Store ν :=
  let search :=
    match IntervalTree.find store.lo store.hi addr store.sb.rb none with
    | none => (none, store)
    | some id => (some id, { store with sb := { store.sb with findCache := some id } })
  match store.sb.findCache with
  | none => search
  | some id => if addr < store.hi id ∧ store.lo id ≤ addr then (some id, store) else search

/-- `pos_find_vma_prev`: the first area that ends past the address, and the area before it. -/
def posFindVmaPrev (addr : Nat) : Option VmaId × Option VmaId :=
  match IntervalTree.findPrev store.hi store.next addr store.sb.rb none with
  | none => (store.sb.vmNext, none)
  | some prev => (store.next prev, some prev)

/-- What a search for a hole in the list ends with. -/
inductive Scan where
  | full (prev : Option VmaId) (hole : Nat)
  | found (addr : Nat) (prev : Option VmaId) (hole : Nat)
  | unending

/-- The loop of `pos_get_unmapped_area`; the list has no more areas than have been allocated. -/
def scanHoles (len limit : Nat) : Nat → Option VmaId → Nat → Option VmaId → Nat → Scan
  | 0, _, _, _, _ => .unending
  | rounds + 1, vma, addr, prev, hole =>
      if limit - len < addr then .full prev hole
      else
        match vma with
        | none => .found addr prev hole
        | some id =>
            if addr + len ≤ store.lo id then .found addr prev hole
            else
              scanHoles len limit rounds (store.next id) (store.hi id) (some id)
                (if addr + hole < store.lo id then store.lo id - addr else hole)

/-- The end of `pos_get_unmapped_area`. -/
def holeFound (len addr : Nat) (prev : Option VmaId) (hole : Nat) :
    Nat × Option VmaId × Store ν :=
  (addr, prev, { store with
    sb := { store.sb with freeAreaCache := addr + len, cachedHoleSize := hole } })

/-- `pos_get_unmapped_area`: the address or `POS_ERROR`, and the area before the hole if the search
has passed one.  `none` if the list does not end. -/
def posGetUnmappedArea (len : Nat) : Option (Nat × Option VmaId × Store ν) :=
  let start := kernel.areaStart
  let limit := kernel.areaEnd
  if limit < len then some (posError, none, store)
  else
    let store := if len ≤ store.sb.cachedHoleSize then
        { store with sb := { store.sb with cachedHoleSize := 0, freeAreaCache := start } }
      else store
    let addr := max store.sb.freeAreaCache start
    let (vma, store) := store.posFindVma addr
    match store.scanHoles len limit (store.nextVma + 1) vma addr none store.sb.cachedHoleSize with
    | .unending => none
    | .found addr prev hole => some (store.holeFound len addr prev hole)
    | .full prev hole =>
        if addr ≠ start then
          let (vma, store) := store.posFindVma start
          match store.scanHoles len limit (store.nextVma + 1) vma start prev 0 with
          | .unending => none
          | .found addr prev hole => some (store.holeFound len addr prev hole)
          | .full prev hole =>
              some (posError, prev, { store with sb := { store.sb with cachedHoleSize := hole } })
        else some (posError, prev, { store with sb := { store.sb with cachedHoleSize := hole } })

/-! ## Linking and unlinking -/

/-- `pos_vma_link_list`. -/
def posVmaLinkList (id : VmaId) (prev parent : Option VmaId) : Store ν :=
  match prev with
  | some prev =>
      let store := store.setVma id fun area => { area with vmNext := store.next prev }
      store.setVma prev fun area => { area with vmNext := some id }
  | none =>
      let store := { store with sb := { store.sb with vmNext := some id } }
      store.setVma id fun area => { area with vmNext := parent }

/-- `pos_insert_vm_area`; the start of the new area does not lie in an area.  The callers ignore that
an area which overlaps another is not linked. -/
def posInsertVmArea (id : VmaId) : Store ν :=
  let place := IntervalTree.prepare store.lo store.hi (store.lo id) store.sb.rb ⟨none, none, none⟩
  let linked :=
    let rb := kernel.rbInsertColor
      (IntervalTree.link store.lo store.hi (store.lo id) id store.sb.rb)
    let store := store.posVmaLinkList id place.prev place.parent
    { store with
      sb := { store.sb with
        rb := rb, totalVm := store.sb.totalVm + (store.vma id).nrPages
        vmCount := store.sb.vmCount + 1 } }
  match place.vma with
  | some vma => if store.lo vma < store.hi id then store else linked
  | none => linked

/-- The middle part of `pos_vma_link_list2`: after the first area whose neighbours leave room. -/
def linkMiddle (id : VmaId) : List VmaId → List VmaId
  | prev :: next :: rest =>
      if store.hi prev ≤ store.lo id ∧ store.hi id ≤ store.lo next then prev :: id :: next :: rest
      else prev :: linkMiddle id (next :: rest)
  | short => short

/-- `pos_vma_link_list2`; the list has an area already. -/
def posVmaLinkList2 (record : RecordId) (id : VmaId) : Store ν :=
  let areas := (store.record record).vmList
  let linked :=
    if (areas.getLast?.map store.hi).any (· ≤ store.lo id) then areas ++ [id]
    else if (areas.head?.map store.lo).any (store.hi id ≤ ·) then id :: areas
    else store.linkMiddle id areas
  store.setRecord record fun desc => { desc with vmList := linked }

/-- `list_del` of an area from the list of its object. -/
def listDel (id : VmaId) : Store ν :=
  store.setRecord (store.vma id).nsRecord fun desc =>
    { desc with vmList := desc.vmList.erase id }

/-- `pos_unmap_area`. -/
def posUnmapArea (addr : Nat) : Store ν :=
  if kernel.areaStart ≤ addr ∧ addr < store.sb.freeAreaCache then
    { store with sb := { store.sb with freeAreaCache := addr, cachedHoleSize := 2 ^ 64 - 1 } }
  else store

/-- `pos_remove_vm_area`. -/
def posRemoveVmArea (id : VmaId) (prev : Option VmaId) : Store ν :=
  let store := { store with sb := { store.sb with rb := kernel.rbErase id store.sb.rb } }
  let store := match prev with
    | none => { store with sb := { store.sb with vmNext := store.next id } }
    | some prev => store.setVma prev fun area => { area with vmNext := store.next id }
  let store := store.setVma id fun area => { area with vmNext := none }
  let addr := match prev with
    | none => kernel.areaStart
    | some prev => store.hi prev
  let store := store.posUnmapArea kernel addr
  { store with
    sb := { store.sb with
      findCache := none, totalVm := store.sb.totalVm - (store.vma id).nrPages
      vmCount := store.sb.vmCount - 1 } }

/-! ## Growing and shrinking an object -/

/-- The number of pages between two addresses. -/
def pagesBetween (start stop : Nat) : Nat := (stop + (2 ^ 64 - start)) % 2 ^ 64 / pageSize

/-- `pos_create_or_merge_vma`; the results of the merges of map arrays are ignored. -/
def posCreateOrMergeVma (record : RecordId) (prev next : Option VmaId) (vmStart vmEnd : Nat) :
    Option (Store ν) :=
  let prevFits := prev.filter fun id =>
    store.hi id = vmStart ∧ (store.vma id).nsRecord = record
  let nextFits := next.filter fun id =>
    vmEnd = store.lo id ∧ (store.vma id).nsRecord = record
  match prevFits, nextFits with
  | some prev, some next =>
      let stop := store.hi next
      let nrPages := pagesBetween (store.lo prev) stop
      let store := store.setVma prev fun area => { area with vmEnd := stop, nrPages := nrPages }
      let store := { store with sb := { store.sb with rb := kernel.rbErase next store.sb.rb } }
      let store := store.setVma prev fun area => { area with vmNext := store.next next }
      let store := store.setVma next fun area => { area with vmNext := none }
      let store := store.listDel next
      let store := { store with sb := { store.sb with vmCount := store.sb.vmCount - 1 } }
      match posMergeMapArray junk nrPages (store.lo prev / pageSize) (store.vma prev).mapArray
          (some (store.vma next).mapArray) with
      | none => none
      | some (_, map) => some (store.setVma prev fun area => { area with mapArray := map })
  | some prev, none =>
      let nrPages := pagesBetween (store.lo prev) vmEnd
      let store := store.setVma prev fun area => { area with vmEnd := vmEnd, nrPages := nrPages }
      match posMergeMapArray junk nrPages (store.lo prev / pageSize) (store.vma prev).mapArray
          none with
      | none => none
      | some (_, map) => some (store.setVma prev fun area => { area with mapArray := map })
  | none, some next =>
      let originNrPages := (store.vma next).nrPages
      let nrPages := pagesBetween vmStart (store.hi next)
      let src := (store.vma next).mapArray
      let store := store.setVma next fun area =>
        { area with vmStart := vmStart, nrPages := nrPages }
      let fresh := MapArray.new (posPagesToLevel originNrPages) (vmStart / pageSize)
      match posMergeMapArray junk nrPages (vmStart / pageSize) fresh (some src) with
      | none => none
      | some (_, map) => some (store.setVma next fun area => { area with mapArray := map })
  | none, none =>
      let nrPages := pagesBetween vmStart vmEnd
      let id := store.nextVma
      let store := store.newVma
        { vmStart := vmStart, vmEnd := vmEnd, nrPages := nrPages,
          mapArray := MapArray.new (posPagesToLevel nrPages) (vmStart / pageSize),
          nsRecord := record, vmNext := none }
      let store := store.posInsertVmArea kernel id
      some (store.posVmaLinkList2 record id)

/-- `pos_delete_or_split_vma`: whether it reports success. -/
def posDeleteOrSplitVma (record : RecordId) (vma : VmaId) (prev : Option VmaId) (addr len : Nat) :
    Option (Bool × Store ν) :=
  let start := store.lo vma
  let stop := store.hi vma
  let last := (addr + len) % 2 ^ 64
  if addr < start ∨ stop < addr then some (false, store)
  else if start = addr then
    if stop - start = len then
      let store := store.posRemoveVmArea kernel vma prev
      some (true, store.listDel vma)
    else if stop - start < len then
      -- the source compares the wrong way: this branch moves the start past the end
      let nrPages := pagesBetween last stop
      let src := (store.vma vma).mapArray
      let fresh := MapArray.new (posPagesToLevel nrPages) (last / pageSize)
      let store := store.setVma vma fun area =>
        { area with vmStart := last, nrPages := nrPages, mapArray := fresh }
      match copyPartial junk (last / pageSize) (addr / pageSize) (last / pageSize) src.slot
          fresh with
      | none => none
      | some (done, map) =>
          some (done, store.setVma vma fun area => { area with mapArray := map })
    else some (false, store)
  else if last = stop then
    let nrPages := pagesBetween start addr
    let store := store.setVma vma fun area => { area with vmEnd := addr, nrPages := nrPages }
    match reduceSlot (addr / pageSize) (last / pageSize) (store.vma vma).mapArray.slot with
    | none => none
    | some map =>
        if map.level < posPagesToLevel nrPages then
          some (true, store.setVma vma fun area => { area with mapArray := map })
        else
          match reduceLevel (posPagesToLevel nrPages) map.slot with
          | none => none
          | some map => some (true, store.setVma vma fun area => { area with mapArray := map })
  else if last < stop then
    let store := store.setVma vma fun area =>
      { area with vmEnd := addr, nrPages := pagesBetween start addr }
    -- the end of the new area is read after the old area has been cut
    let nrPages := pagesBetween last (store.hi vma)
    let fresh := MapArray.new (posPagesToLevel nrPages) (last / pageSize)
    let id := store.nextVma
    let store := store.newVma
      { vmStart := last, vmEnd := store.hi vma, nrPages := nrPages, mapArray := fresh,
        nsRecord := record, vmNext := none }
    let store := store.posInsertVmArea kernel id
    let store := store.posVmaLinkList2 record id
    match copyPartial junk (last / pageSize) (addr / pageSize) (last / pageSize)
        (store.vma vma).mapArray.slot fresh with
    | none => none
    | some (false, map) =>
        some (false, store.setVma id fun area => { area with mapArray := map })
    | some (true, map) =>
        let store := store.setVma id fun area => { area with mapArray := map }
        match reduceSlot (addr / pageSize) (store.hi vma / pageSize)
            (store.vma vma).mapArray.slot with
        | none => none
        | some map =>
            let level := posPagesToLevel (store.vma vma).nrPages
            if map.level < level then
              some (true, store.setVma vma fun area => { area with mapArray := map })
            else
              match reduceLevel level map.slot with
              | none => none
              | some map => some (true, store.setVma vma fun area => { area with mapArray := map })
  else some (false, store)

end Store

end StorageStack.Pos
