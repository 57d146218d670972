import StorageStack.F2fs.FormatTables
import StorageStack.F2fs.NidHistory

/-!
# The root directory of a new volume

A mount reads the superblock, the checkpoint, the two tables and, through the node address table,
the root inode.  On a new volume it finds the directory `f2fs_mkdir` makes.
-/

namespace StorageStack

namespace Page

end Page

namespace F2fs

/-! ## Inodes and directory blocks -/

/-- `struct f2fs_dir_entry` in the bytes of a block. -/
def dirEntryAt (page : Page) (slot : Nat) : DirEntry :=
  let entry := NewVolume.dentryOffset + NewVolume.sizeOfDirEntry * slot
  { hashCode := (page.le32 entry).toBitVec
    ino := (page.le32 (entry + 4)).toBitVec
    nameLen := (page.le16 (entry + 8)).toNat
    fileType := (page (entry + 10)).toNat }

/-- `struct f2fs_dentry_block` in the bytes of a block. -/
def dentryBlockOf (page : Page) : DentryBlock where
  bitmap bit := decide (bit < nrDentryInBlock) && (page (bit / 8)).toNat.testBit (bit % 8)
  dentry slot := if slot < nrDentryInBlock then dirEntryAt page slot else ⟨0, 0, 0, 0⟩
  filename index :=
    if index < 8 * nrDentryInBlock then (page (NewVolume.filenameOffset + index)).toBitVec else 0

/-- What `do_read_inode` and the lookups of blocks read in an inode. -/
structure DiskInode where
  iMode : BitVec 16
  iInline : UInt8
  iLinks : Nat
  iSize : Nat
  iBlocks : Nat
  iCurrentDepth : Nat
  iDirLevel : Nat
  iAddr : Nat → Nat
  iNid : Nat → Nat

namespace DiskInode

variable (inode : DiskInode)

/-- `S_ISDIR`. -/
def isDir : Bool := inode.iMode &&& 0xF000 == 0x4000

/-- The inode has an inline xattr. -/
def inlineXattr : Bool := inode.iInline.toNat.testBit 0

/-- The directory of an inode which has no other node. -/
def dir (pages : Nat → Page) : Option Dir :=
  if (List.range 5).all fun index => inode.iNid index == 0 then
    some
      { iSize := inode.iSize
        iDirLevel := inode.iDirLevel
        iCurrentDepth := inode.iCurrentDepth
        chash := 0
        clevel := 0
        inlineXattr := inode.inlineXattr
        blocks index :=
          if index < addrsPerInode inode.inlineXattr ∧ inode.iAddr index ≠ nullAddr then
            some (dentryBlockOf (pages (inode.iAddr index)))
          else none }
  else none

end DiskInode

/-! ## The mount -/

/-- `get_node_page` of a page which is not cached. -/
def getNodePage (sup : NatSuper) (pages : Nat → Page) (nid : Nat) (nm : NmInfo) :
    Option (Page × NmInfo) :=
  let (ni, nm) := getNodeInfo sup nid nm
  let page := pages ni.blkAddr
  if ni.blkAddr = nullAddr ∨ (page.le32 nodeFooterNid).toNat ≠ nid then none else some (page, nm)

namespace NewVolume

variable (volume : NewVolume)

theorem rootIno_eq : volume.sb.rootIno = 3 := by
  rw [volume.sb_eq]
  rfl

section Mounted

variable (options : MountOptions) (image : RawCheckpoint → Page) (superPage : Page) (host : Host)
  (before : Device MetaBlock) (room : Nat → Bool)

/-- The root inode. -/
def rootInode : DiskInode where
  iMode := 0x41ED
  iInline := 0
  iLinks := 2
  iSize := 4096
  iBlocks := 2
  iCurrentDepth := 1
  iDirLevel := 0
  iAddr := Function.update (fun _ => nullAddr) 0 (volume.logBlkaddr .hotData)
  iNid _ := 0

/-- The entries and the names of the root directory. -/
def rootEntryPage : Page := (putDots (putDots Page.zero 0 1 3) 1 2 3).putByte 0 3

theorem rootDentryPage_eq : volume.rootDentryPage = rootEntryPage := by
  unfold rootDentryPage
  rw [volume.rootIno_eq]
  rfl

theorem putDots_outside {page : Page} {slot length place : Nat} {ino : UInt32}
    (entry : place < dentryOffset + sizeOfDirEntry * slot ∨
      dentryOffset + sizeOfDirEntry * slot + 11 ≤ place)
    (name : place < filenameOffset + 8 * slot ∨ filenameOffset + 8 * slot + length ≤ place) :
    putDots page slot length ino place = page place := by
  unfold putDots
  rw [Page.copy_outside name, Page.putByte_of_ne (by omega), Page.putLe16_outside (by omega),
    Page.putLe32_outside (by omega), Page.putLe32_outside (by omega)]

/-- The other bytes of the block are zero. -/
theorem rootEntryPage_zero {place : Nat} (first : place ≠ 0)
    (entries : place < 30 ∨ 52 ≤ place) (names : place < 2384 ∨ 2394 ≤ place) :
    rootEntryPage place = 0 := by
  have dentry : dentryOffset = 30 := rfl
  have entry : sizeOfDirEntry = 11 := rfl
  have filename : filenameOffset = 2384 := rfl
  unfold rootEntryPage
  rw [Page.putByte_of_ne first, putDots_outside (by omega) (by omega),
    putDots_outside (by omega) (by omega)]
  rfl

theorem makeEmptyDir_unused {inode : InodeRef} {parent : BitVec 32} {slot : Nat}
    (unused : 2 ≤ slot) : (makeEmptyDir inode parent).dentry slot = ⟨0, 0, 0, 0⟩ := by
  unfold makeEmptyDir
  dsimp only
  rw [Function.update_of_ne (by omega), Function.update_of_ne (by omega)]

/-- A slot of the block. -/
theorem dirEntryAt_rootEntryPage {slot : Nat} (inside : slot < nrDentryInBlock) :
    dirEntryAt rootEntryPage slot =
      (makeEmptyDir ⟨3, 0x41ED⟩ 3).dentry slot := by
  have slots : nrDentryInBlock = 214 := rfl
  have dentry : dentryOffset = 30 := rfl
  have entry : sizeOfDirEntry = 11 := rfl
  rcases Nat.lt_or_ge slot 2 with used | unused
  · interval_cases slot
    · rfl
    · rfl
  · have zero (place : Nat) (low : 52 ≤ place) (high : place < 2384) : rootEntryPage place = 0 :=
      rootEntryPage_zero (by omega) (.inr low) (.inl high)
    have word (offset : Nat) (low : 52 ≤ offset) (high : offset + 4 ≤ 2384) :
        rootEntryPage.le32 offset = 0 := by
      rw [@Page.le32_congr _ Page.zero offset fun byte _ => zero _ (by omega) (by omega),
        Page.le32_zero]
    have half (offset : Nat) (low : 52 ≤ offset) (high : offset + 2 ≤ 2384) :
        rootEntryPage.le16 offset = 0 := by
      rw [@Page.le16_congr _ Page.zero offset fun byte _ => zero _ (by omega) (by omega)]
      rfl
    rw [makeEmptyDir_unused unused]
    unfold dirEntryAt
    rw [dentry, entry]
    dsimp only
    rw [word _ (by omega) (by omega), word _ (by omega) (by omega), half _ (by omega) (by omega),
      zero _ (by omega) (by omega)]
    rfl

/-- The root directory is the one `make_empty_dir` makes. -/
theorem dentryBlockOf_rootDentryPage :
    dentryBlockOf volume.rootDentryPage = makeEmptyDir ⟨3, 0x41ED⟩ 3 := by
  have slots : nrDentryInBlock = 214 := rfl
  have bitmap : (fun bit => decide (bit < nrDentryInBlock) &&
      (rootEntryPage (bit / 8)).toNat.testBit (bit % 8)) =
        (makeEmptyDir ⟨3, 0x41ED⟩ 3).bitmap := by
    funext bit
    change _ = ((BitMap.empty.set 0).set 1) bit
    rcases Nat.lt_or_ge bit 8 with low | high
    · interval_cases bit <;> rfl
    · have clear : ((BitMap.empty.set 0).set 1) bit = false := by
        rw [BitMap.set, Function.update_of_ne (by omega), BitMap.set,
          Function.update_of_ne (by omega)]
        rfl
      rw [clear]
      by_cases inside : bit < nrDentryInBlock
      · rw [rootEntryPage_zero (by omega) (.inl (by omega)) (.inl (by omega))]
        exact (congrArg (_ && ·) (Nat.zero_testBit _)).trans (Bool.and_false _)
      · rw [decide_eq_false inside, Bool.false_and]
  have dentry : (fun slot => if slot < nrDentryInBlock then dirEntryAt rootEntryPage slot
      else ⟨0, 0, 0, 0⟩) = (makeEmptyDir ⟨3, 0x41ED⟩ 3).dentry := by
    funext slot
    split
    · next inside => exact dirEntryAt_rootEntryPage inside
    · next outside => exact (makeEmptyDir_unused (by omega)).symm
  have filename : (fun index => if index < 8 * nrDentryInBlock then
      (rootEntryPage (filenameOffset + index)).toBitVec else 0) =
        (makeEmptyDir ⟨3, 0x41ED⟩ 3).filename := by
    have start : filenameOffset = 2384 := rfl
    funext index
    change _ = if index = 0 ∨ index = 8 ∨ index = 9 then 0x2E else 0
    rcases Nat.lt_or_ge index 10 with low | high
    · interval_cases index <;> rfl
    · rw [if_neg (show ¬ (index = 0 ∨ index = 8 ∨ index = 9) by omega)]
      split
      · rw [rootEntryPage_zero (by omega) (.inr (by omega)) (.inr (by omega))]
        rfl
      · rfl
  unfold dentryBlockOf
  rw [volume.rootDentryPage_eq, bitmap, dentry, filename]

theorem logBlkaddr_ne_null (type : CursegType) : volume.logBlkaddr type ≠ nullAddr := by
  have main := volume.main_le_logBlkaddr type
  have apart := volume.areasApart
  have first := apart.superblocks
  have sit := apart.sit
  have nat := apart.nat
  have ssa := apart.ssa
  have behind := apart.main
  unfold nullAddr
  omega

/-- The root directory of a new volume is the directory `f2fs_mkdir` makes. -/
theorem dir_rootInode {pages : Nat → Page}
    (page : pages (volume.logBlkaddr .hotData) = volume.rootDentryPage) :
    volume.rootInode.dir pages = some (emptyDir 0 false ⟨3, 0x41ED⟩ 3) := by
  have place := volume.logBlkaddr_ne_null .hotData
  have plain : volume.rootInode.inlineXattr = false := Nat.zero_testBit 0
  have blocks : (fun index => if index < addrsPerInode false ∧
      volume.rootInode.iAddr index ≠ nullAddr then
        some (dentryBlockOf (pages (volume.rootInode.iAddr index))) else none) =
      Function.update (fun _ => none) 0 (some (makeEmptyDir ⟨3, 0x41ED⟩ 3)) := by
    funext index
    rcases Nat.eq_zero_or_pos index with rfl | later
    · have here : volume.rootInode.iAddr 0 = volume.logBlkaddr .hotData := rfl
      have inside : 0 < addrsPerInode false := by decide
      rw [here, page, volume.dentryBlockOf_rootDentryPage, Function.update_self,
        if_pos ⟨inside, place⟩]
    · have hole : volume.rootInode.iAddr index = nullAddr := by
        change Function.update (fun _ => nullAddr) 0 _ index = nullAddr
        exact Function.update_of_ne (by omega) _ _
      rw [hole, Function.update_of_ne (by omega), if_neg (fun both => both.2 rfl)]
  have alone : ((List.range 5).all fun index => volume.rootInode.iNid index == 0) = true := rfl
  unfold DiskInode.dir
  rw [plain, blocks, if_pos alone]
  rfl

/-! ## The mounted volume -/

/-- The block of a page. -/
theorem view_of_device {address : Nat} {page : Page}
    (stored : volume.device image superPage host before address = bytesBlock page) :
    (volume.view image superPage host before address).page image = page := by
  unfold view packView
  rw [stored]
  rfl

end Mounted

end NewVolume

end F2fs
end StorageStack
