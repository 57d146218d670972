import StorageStack.F2fs.DentryBlock
import StorageStack.F2fs.Geometry

/-!
# Directories

A directory is a file of dentry blocks arranged as a hash table of several levels, each with twice
the buckets of the one before.  The file follows `f2fs_find_entry`, `__f2fs_add_link`,
`f2fs_delete_entry` and `f2fs_readdir` with the page functions they call.  `none` stands for the
`BUG()` of `get_node_path`, which stops the machine when a block number lies past the largest file.
-/

namespace StorageStack.F2fs

/-- The error numbers that the page and node functions return. -/
inductive Errno where
  | perm | noent | io | nomem | inval | nospc
deriving DecidableEq

/-- The inode of a directory and its pages; a hole of the file is `none`. -/
structure Dir where
  iSize : Nat
  iDirLevel : Nat
  iCurrentDepth : Nat
  chash : BitVec 32
  clevel : Nat
  inlineXattr : Bool
  blocks : Nat → Option DentryBlock

/-- `MAX_DIR_HASH_DEPTH`. -/
def maxDirHashDepth : Nat := 63

/-- `MAX_DIR_BUCKETS`. -/
def maxDirBuckets : Nat := 2 ^ 30

/-- `dir_blocks`. -/
def dirBlocks (dir : Dir) : Nat := (dir.iSize + pageCacheSize - 1) / pageCacheSize

/-- `dir_buckets`. -/
def dirBuckets (level dirLevel : Nat) : Nat :=
  if level + dirLevel < maxDirHashDepth / 2 then 2 ^ (level + dirLevel) else maxDirBuckets

/-- `bucket_blocks`. -/
def bucketBlocks (level : Nat) : Nat := if level < maxDirHashDepth / 2 then 2 else 4

/-- The loop of `dir_block_index`; its products are of unsigned 32-bit numbers. -/
def levelStart (dirLevel : Nat) : Nat → Nat
  | 0 => 0
  | level + 1 =>
      levelStart dirLevel level + dirBuckets level dirLevel * bucketBlocks level % 2 ^ 32

/-- `dir_block_index`. -/
def dirBlockIndex (level dirLevel idx : Nat) : Nat :=
  levelStart dirLevel level + idx * bucketBlocks level % 2 ^ 32

theorem maxDirHashDepth_half : maxDirHashDepth / 2 = 31 := rfl

theorem bucketBlocks_pos (level : Nat) : 0 < bucketBlocks level := by
  rw [bucketBlocks]
  split <;> decide

theorem dirBuckets_le (level dirLevel : Nat) : dirBuckets level dirLevel ≤ 2 ^ 30 := by
  rw [dirBuckets, maxDirHashDepth_half]
  split
  next low => exact Nat.pow_le_pow_right (by decide) (by omega)
  next => exact Nat.le_refl _

theorem levelStart_mono (dirLevel : Nat) : Monotone (levelStart dirLevel) := by
  apply monotone_nat_of_le_succ
  intro level
  exact Nat.le_add_right _ _

/-- `addrs_per_inode`. -/
def addrsPerInode (inlineXattr : Bool) : Nat := if inlineXattr then 923 - 50 else 923

/-- The first block number for which `get_node_path` has no place. -/
def maxFileBlocks (inlineXattr : Bool) : Nat :=
  1018 * 1018 * 1018 + 2 * (1018 * 1018) + 2 * 1018 + addrsPerInode inlineXattr

/-- `find_data_page`: a page, or an error for a hole. -/
def findDataPage (dir : Dir) (index : Nat) : Option (Option DentryBlock) :=
  match dir.blocks index with
  | some blk => some (some blk)
  | none => if index < maxFileBlocks dir.inlineXattr then some none else none

/-- `get_lock_data_page`, which looks the block up even when its page is cached. -/
def getLockDataPage (dir : Dir) (index : Nat) : Option (Option DentryBlock) :=
  if index < maxFileBlocks dir.inlineXattr then some (dir.blocks index) else none

/-- `get_new_data_page` with `new_i_size`: the page, in a hole a page of zeros.  Reserving the block
or reading the page may fail. -/
def getNewDataPage (dir : Dir) (index : Nat) (fault : Option Errno) :
    Option (Dir × Except Errno DentryBlock) :=
  if index < maxFileBlocks dir.inlineXattr then
    match fault with
    | some err => some (dir, .error err)
    | none =>
        match dir.blocks index with
        | some blk => some (dir, .ok blk)
        | none =>
            some ({ dir with
              blocks := Function.update dir.blocks index (some .zero)
              iSize := if dir.iSize < (index + 1) * pageCacheSize then
                (index + 1) * pageCacheSize else dir.iSize }, .ok .zero)
  else none

/-! ## Lookup -/

/-- An entry as `f2fs_find_entry` returns it: the page, the slot and the entry there. -/
structure FoundEntry where
  block : Nat
  bitPos : Nat
  de : DirEntry
deriving DecidableEq

/-- The loop of `find_in_level` over the blocks of a bucket: the entry and whether there is
room. -/
def findInBucket (dir : Dir) (name : FileName) (nameHash : BitVec 32) :
    Nat → Nat → Bool → Nat → Option (Option FoundEntry × Bool)
  | 0, _, room, _ => some (none, room)
  | count + 1, bidx, room, maxSlots =>
      match findDataPage dir bidx with
      | none => none
      | some none => findInBucket dir name nameHash count (bidx + 1) true maxSlots
      | some (some blk) =>
          match findInBlock blk name maxSlots nameHash with
          | (some bitPos, _) => some (some ⟨bidx, bitPos, blk.dentry bitPos⟩, room)
          | (none, slots) =>
              findInBucket dir name nameHash count (bidx + 1)
                (room || decide (getDentrySlots name.bytes.length ≤ slots)) slots

/-- `find_in_level`; here the block numbers are unsigned 32-bit numbers. -/
def findInLevel (dir : Dir) (level : Nat) (name : FileName) (nameHash : BitVec 32) :
    Option (Dir × Option FoundEntry) :=
  let nbucket := dirBuckets level dir.iDirLevel
  let bidx := dirBlockIndex level dir.iDirLevel (nameHash.toNat % nbucket) % 2 ^ 32
  let endBlock := (bidx + bucketBlocks level) % 2 ^ 32
  match findInBucket dir name nameHash (endBlock - bidx) bidx false 0 with
  | none => none
  | some (some de, _) => some (dir, some de)
  | some (none, room) =>
      if room = true ∧ dir.chash ≠ nameHash then
        some ({ dir with chash := nameHash, clevel := level }, none)
      else some (dir, none)

/-- The loop of `f2fs_find_entry` over the levels, and the hint it leaves for the next add. -/
def findInLevels (name : FileName) (nameHash : BitVec 32) :
    Nat → Dir → Nat → Option (Dir × Option FoundEntry)
  | 0, dir, level =>
      if dir.chash ≠ nameHash then
        some ({ dir with chash := nameHash, clevel := (level + (2 ^ 32 - 1)) % 2 ^ 32 }, none)
      else some (dir, none)
  | rounds + 1, dir, level =>
      match findInLevel dir level name nameHash with
      | none => none
      | some (dir, some de) => some (dir, some de)
      | some (dir, none) => findInLevels name nameHash rounds dir (level + 1)

/-- `f2fs_find_entry`. -/
def f2fsFindEntry (dir : Dir) (name : FileName) : Option (Dir × Option FoundEntry) :=
  if dirBlocks dir = 0 then some (dir, none)
  else findInLevels name (f2fsDentryHash name) dir.iCurrentDepth dir 0

/-! ## Adding -/

/-- The failures that an add can meet: of `get_new_data_page` for each block, and of
`init_inode_metadata`. -/
structure AddFaults where
  page : Nat → Option Errno
  metadata : Option Errno

/-- The loop of `__f2fs_add_link` over the blocks of a bucket: the first block and slot with
room. -/
def findRoom (slots : Nat) (faults : AddFaults) :
    Nat → Dir → Nat → Option (Dir × Except Errno (Option (Nat × Nat)))
  | 0, dir, _ => some (dir, .ok none)
  | count + 1, dir, block =>
      match getNewDataPage dir block (faults.page block) with
      | none => none
      | some (dir, .error err) => some (dir, .error err)
      | some (dir, .ok blk) =>
          if roomForFilename blk slots < nrDentryInBlock then
            some (dir, .ok (some (block, roomForFilename blk slots)))
          else findRoom slots faults count dir (block + 1)

/-- `__f2fs_add_link` from `add_dentry` on. -/
def addDentryAt (dir : Dir) (block bitPos : Nat) (name : FileName) (inode : InodeRef)
    (currentDepth : Nat) (fault : Option Errno) : Dir × Except Errno (Nat × Nat) :=
  match fault with
  | some err => (dir, .error err)
  | none =>
      ({ dir with
        blocks := Function.update dir.blocks block
          ((dir.blocks block).map fun blk => blk.addDentry bitPos name inode)
        iCurrentDepth := currentDepth }, .ok (block, bitPos))

/-- `__f2fs_add_link` from `start` on.  `currentDepth` grows in every round from the first new level
on, so there are fewer rounds than `MAX_DIR_HASH_DEPTH`. -/
def addLinkFrom (name : FileName) (inode : InodeRef) (faults : AddFaults) :
    Nat → Dir → Nat → Nat → Option (Dir × Except Errno (Nat × Nat))
  | 0, dir, _, _ => some (dir, .error .nospc)
  | rounds + 1, dir, level, currentDepth =>
      if currentDepth = maxDirHashDepth then some (dir, .error .nospc)
      else
        let currentDepth := if level = currentDepth then currentDepth + 1 else currentDepth
        let nbucket := dirBuckets level dir.iDirLevel
        let bidx := dirBlockIndex level dir.iDirLevel ((f2fsDentryHash name).toNat % nbucket)
        match findRoom (getDentrySlots name.bytes.length) faults (bucketBlocks level) dir bidx with
        | none => none
        | some (dir, .error err) => some (dir, .error err)
        | some (dir, .ok (some (block, bitPos))) =>
            some (addDentryAt dir block bitPos name inode currentDepth faults.metadata)
        | some (dir, .ok none) => addLinkFrom name inode faults rounds dir (level + 1) currentDepth

/-- `__f2fs_add_link`: the new directory and the place of the entry or the error. -/
def f2fsAddLink (dir : Dir) (name : FileName) (inode : InodeRef) (faults : AddFaults) :
    Option (Dir × Except Errno (Nat × Nat)) :=
  if dir.chash = f2fsDentryHash name then
    addLinkFrom name inode faults (maxDirHashDepth + 1) { dir with chash := 0 } dir.clevel
      dir.iCurrentDepth
  else
    addLinkFrom name inode faults (maxDirHashDepth + 1) dir 0 dir.iCurrentDepth

/-! ## Deleting -/

/-- `f2fs_delete_entry`: clear the slots, and punch the block out when no slot is left. -/
def f2fsDeleteEntry (dir : Dir) (block bitPos : Nat) : Dir :=
  { dir with
    blocks := Function.update dir.blocks block
      ((dir.blocks block).bind fun blk =>
        if (blk.clearDentry bitPos).bitmap.findNextBit nrDentryInBlock 0 = nrDentryInBlock then none
        else some (blk.clearDentry bitPos)) }

/-! ## Listing -/

/-- The name `"."`. -/
def dotName : FileName := ⟨[0x2E], by decide, by decide⟩

/-- The name `".."`. -/
def dotDotName : FileName := ⟨[0x2E, 0x2E], by decide, by decide⟩

/-- The block that `make_empty_dir` fills; both entries get the type of the directory itself. -/
def makeEmptyDir (inode : InodeRef) (parent : BitVec 32) : DentryBlock where
  bitmap := (BitMap.empty.set 0).set 1
  dentry := Function.update
    (Function.update (fun _ => ⟨0, 0, 0, 0⟩) 0 ⟨0, inode.ino, 1, deType inode.mode⟩)
    1 ⟨0, parent, 2, deType inode.mode⟩
  filename := fun i => if i = 0 ∨ i = 8 ∨ i = 9 then 0x2E else 0

/-- The directory as `f2fs_mkdir` leaves it. -/
def emptyDir (dirLevel : Nat) (inlineXattr : Bool) (inode : InodeRef) (parent : BitVec 32) :
    Dir where
  iSize := pageCacheSize
  iDirLevel := dirLevel
  iCurrentDepth := 1
  chash := 0
  clevel := 0
  inlineXattr := inlineXattr
  blocks := Function.update (fun _ => none) 0 (some (makeEmptyDir inode parent))

end StorageStack.F2fs
