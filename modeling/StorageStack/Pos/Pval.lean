import StorageStack.Execution
import StorageStack.KeyedTree
import StorageStack.Pos.MapLookup
import StorageStack.Pos.WellFormed

/-!
# Section values of files

The store keeps a descriptor for every executable file whose sections have been faulted in: a table
of chains of devices, for each device a tree of descriptors by inode number and the descriptor found
last, and in each descriptor a map array for the pages behind the start of the segment.  The
descriptors are allocated from one cache; what a freed one holds stays until it is allocated again.
-/

namespace StorageStack.Pos

open IntervalTree

abbrev DescId := Nat

/-- `struct pos_pval_descriptor`. -/
structure PvalDescriptor where
  segStart : Nat
  segEnd : Nat
  ino : Nat
  mapArray : MapArray

/-- `struct pos_pval_device`; the pointer to the next device of a chain is in the chain. -/
structure PvalDevice where
  dev : Nat
  findCache : Option DescId
  devRb : SearchTree DescId

/-- `POS_PVAL_TABLE`. -/
def posPvalTable : Nat := 16

/-- `pos_pval_table_index`. -/
def posPvalTableIndex (device : Nat) : Nat := device % posPvalTable

/-- `pval_table` of the superblock, and the memory of the descriptors. -/
structure PvalTable where
  chain : Nat → List PvalDevice
  desc : DescId → PvalDescriptor

/-- The device in a chain; the loop of `find_device`. -/
def findDevice (device : Nat) (chain : List PvalDevice) : Option PvalDevice :=
  chain.find? fun old => old.dev = device

/-- A chain after a device has been changed where it is, or linked behind the last. -/
def setDevice (new : PvalDevice) : List PvalDevice → List PvalDevice
  | [] => [new]
  | old :: rest => if old.dev = new.dev then new :: rest else old :: setDevice new rest

namespace PvalTable

variable (kernel : Kernel) (junk : Junk) (table : PvalTable)

/-- The device of a number. -/
def device (device : Nat) : Option PvalDevice :=
  findDevice device (table.chain (posPvalTableIndex device))

/-- Write a device to its chain. -/
def setDevice (new : PvalDevice) : PvalTable :=
  { table with
    chain := Function.update table.chain (posPvalTableIndex new.dev)
      (Pos.setDevice new (table.chain (posPvalTableIndex new.dev))) }

/-- Write a descriptor. -/
def setDesc (id : DescId) (new : PvalDescriptor) : PvalTable :=
  { table with desc := Function.update table.desc id new }

/-- The inode number of a descriptor. -/
def inoOf (id : DescId) : Nat := (table.desc id).ino

/-- `pos_find_pval_desc`: the descriptor, and the device with what it has found last. -/
def posFindPvalDesc (device : PvalDevice) (ino : Nat) : Option DescId × PvalDevice :=
  let search := match KeyedTree.search table.inoOf ino device.devRb with
    | none => (none, device)
    | some id => (some id, { device with findCache := some id })
  match device.findCache with
  | none => search
  | some id => if table.inoOf id = ino then (some id, device) else search

/-- `pos_insert_pval_desc`; `none` for `POS_ERROR`. -/
def posInsertPvalDesc (device : PvalDevice) (id : DescId) : Option PvalDevice :=
  (KeyedTree.insert table.inoOf (table.inoOf id) id device.devRb).map fun rb =>
    { device with devRb := kernel.rbInsertColor rb }

/-- `pos_find_and_alloc_pfn_pval`: the word of level one, and the table; `fresh` is the frame that
`pos_alloc_page` gives. -/
def posFindAndAllocPfnPval (fresh : Nat) (id : DescId) (addr : Nat) : Option (Slot × PvalTable) :=
  let descriptor := table.desc id
  match posFindAndAllocPfn junk fresh descriptor.mapArray
      (Store.pagesBetween descriptor.segStart addr) with
  | none => none
  | some (pfn, map) => some (pfn, table.setDesc id { descriptor with mapArray := map })

/-- The part of `pos_find_and_alloc_pval_desc` from `alloc_descriptor` on; `id` is the descriptor that
`pos_kmem_cache_alloc` gives. -/
def allocDescriptor (device : PvalDevice) (ino vmStart vmEnd addr : Nat) (id : DescId)
    (fresh : Nat) : Option (Slot × PvalTable) :=
  let table := table.setDesc id { table.desc id with ino := ino }
  match table.posInsertPvalDesc kernel device id with
  | none => some (.empty, table.setDevice device)
  | some device =>
      -- the source subtracts the end from the start
      let nrPages := Store.pagesBetween vmEnd vmStart
      let table := (table.setDevice device).setDesc id
        { segStart := vmStart, segEnd := vmEnd, ino := ino,
          mapArray := MapArray.new (posPagesToLevel nrPages) (vmStart / pageSize) }
      table.posFindAndAllocPfnPval junk fresh id addr

/-- `pos_find_and_alloc_pval_desc` for an address in a mapping of the inode. -/
def posFindAndAllocPvalDesc (device ino vmStart vmEnd addr : Nat) (id : DescId) (fresh : Nat) :
    Option (Slot × PvalTable) :=
  match table.device device with
  | none => table.allocDescriptor kernel junk ⟨device, none, .leaf⟩ ino vmStart vmEnd addr id fresh
  | some old =>
      match table.posFindPvalDesc old ino with
      | (some found, old) => (table.setDevice old).posFindAndAllocPfnPval junk fresh found addr
      | (none, old) => table.allocDescriptor kernel junk old ino vmStart vmEnd addr id fresh

/-- `S_IXUGO`. -/
def sIxugo : Nat := 0o111

/-- `pos_find_and_remove_pval_desc` for an inode.  The descriptor that the device has found last stays
in `find_cache`. -/
def posFindAndRemovePvalDesc (device ino mode : Nat) : PvalTable :=
  if mode &&& sIxugo = 0 then table
  else
    match table.device device with
    | none => table
    | some old =>
        match table.posFindPvalDesc old ino with
        | (none, old) => table.setDevice old
        | (some id, old) =>
            let table := table.setDesc id
              { table.desc id with segStart := 0, segEnd := 0, ino := 0 }
            table.setDevice { old with devRb := kernel.rbErase id old.devRb }

/-- The descriptor that a search for the inode of the device finds. -/
def lookup (device ino : Nat) : Option DescId :=
  (table.device device).bind fun old => (table.posFindPvalDesc old ino).1

end PvalTable

/-- A page of a file that a fault has asked for, and the word that the fault returned. -/
structure PvalFault where
  device : Nat
  ino : Nat
  page : Nat
  word : Slot

/-- A fault in a mapping of an inode, with what the allocators give if they are asked, and the removal
of an inode of the given mode. -/
inductive PvalCall where
  | fault (device ino vmStart vmEnd addr : Nat) (id : DescId) (fresh : Nat)
  | remove (device ino mode : Nat)

/-- The table, and the faults on the inodes that have not been removed since. -/
structure PvalWorld where
  table : PvalTable
  history : List PvalFault

namespace PvalWorld

/-- The world without devices. -/
def start (desc : DescId → PvalDescriptor) : PvalWorld := ⟨⟨fun _ => [], desc⟩, []⟩

/-- One call. -/
def step (kernel : Kernel) (junk : Junk) (world : PvalWorld) : PvalCall → Option PvalWorld
  | .fault device ino vmStart vmEnd addr id fresh =>
      match world.table.posFindAndAllocPvalDesc kernel junk device ino vmStart vmEnd addr id fresh with
      | none => none
      | some (word, table) =>
          some ⟨table, ⟨device, ino, addr / pageSize, word⟩ :: world.history⟩
  | .remove device ino mode =>
      some ⟨world.table.posFindAndRemovePvalDesc kernel device ino mode,
        if mode &&& PvalTable.sIxugo = 0 then world.history
        else world.history.filter fun fault => ¬(fault.device = device ∧ fault.ino = ino)⟩

/-- The descriptors form a map from devices and inodes to frames of pages. -/
structure FormsMap (world : PvalWorld) : Prop where
  found : ∀ device ino, (world.table.lookup device ino).isSome ↔
    ∃ fault ∈ world.history, fault.device = device ∧ fault.ino = ino
  cached : ∀ slot, ∀ device ∈ world.table.chain slot, ∀ id, device.findCache = some id →
    id ∈ device.devRb.inorder
  frames : ∀ first ∈ world.history, ∀ second ∈ world.history, first.word = second.word ↔
    first.device = second.device ∧ first.ino = second.ino ∧ first.page = second.page

/-- The call is about an address in a mapping of user space, and the allocators give what is not in
use. -/
def Admitted (world : PvalWorld) : PvalCall → Prop
  | .fault _ _ vmStart vmEnd addr id fresh =>
      vmStart % pageSize = 0 ∧ vmEnd % pageSize = 0 ∧ vmEnd ≤ 2 ^ 47 ∧ vmStart ≤ addr ∧
        addr < vmEnd ∧
        (∀ slot, ∀ device ∈ world.table.chain slot, id ∉ device.devRb.inorder) ∧
        ∀ fault ∈ world.history, fault.word ≠ .frame fresh
  | .remove _ _ _ => True

/-- The call removes no descriptor. -/
def RemovesNothing (world : PvalWorld) : PvalCall → Prop
  | .fault .. => True
  | .remove device ino mode =>
      mode &&& PvalTable.sIxugo = 0 ∨ world.table.lookup device ino = none

end PvalWorld

end StorageStack.Pos
