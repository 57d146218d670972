import StorageStack.F2fs.CheckpointAtomic
import StorageStack.F2fs.DirectoryHistory
import StorageStack.F2fs.FormatLayout

/-!
# Formatting a device

The blocks `mkfs` writes, in their order: the tables, the root directory and the two checkpoint
packs.  A mount sees the device through the fields of the superblock.
-/

namespace StorageStack
namespace Page

/-- Store a byte. -/
def putByte (page : Page) (offset : Nat) (byte : UInt8) : Page := Function.update page offset byte

/-- Store words one after the other. -/
def putWords (page : Page) (words : List (Nat × UInt32)) : Page :=
  words.foldl (fun page word => page.putLe32 word.1 word.2) page

end Page

namespace F2fs

/-- A volume `f2fs_prepare_super_block` has laid out, with room for the version bit maps. -/
structure NewVolume where
  config : Config
  sb : SuperBlock
  /-- `config.cur_seg`. -/
  curSeg : CursegType → Nat
  ordinary : config.Ordinary
  prepared : f2fsPrepareSuperBlock config = some (sb, curSeg)
  bitmaps : BitmapsFit sb

/-- What a mount adds to the values on the device. -/
structure MountOptions where
  maxDiscards : Nat
  maxVictimSearch : Nat
  noheap : Bool
  discard : Bool

namespace NewVolume

variable (volume : NewVolume)

theorem sb_eq : volume.sb = volume.config.superBlock :=
  (f2fsPrepareSuperBlock_eq volume.prepared).1

theorem laid : Laid volume.config volume.sb := by
  rw [volume.sb_eq]
  exact volume.ordinary.superBlock_laid

theorem placed : LogsPlaced volume.config volume.sb volume.curSeg := by
  obtain ⟨same, logs, _, zones⟩ := f2fsPrepareSuperBlock_eq volume.prepared
  rw [logs, same]
  rw [same] at zones
  exact volume.ordinary.curSeg_placed volume.ordinary.superBlock_laid zones

theorem reserved_le : volume.config.reservedSegments + 2 ≤ volume.sb.segmentCountMain :=
  reservedSegments_le volume.ordinary volume.prepared

theorem logBlocksPerSeg_eq : volume.sb.logBlocksPerSeg = 9 := by
  rw [volume.sb_eq]
  rfl

theorem segmentCountCkpt_eq : volume.sb.segmentCountCkpt = 2 := volume.laid.packs

/-- The segments before the main area. -/
def metaSegments : Nat :=
  volume.sb.segmentCountCkpt + volume.sb.segmentCountSit + volume.sb.segmentCountNat +
    volume.sb.segmentCountSsa

theorem mainBlkaddr_eq : volume.sb.mainBlkaddr =
    volume.sb.segment0Blkaddr + volume.metaSegments * blksPerSeg := by
  have laid := volume.laid
  rw [laid.main, laid.ssa, laid.nat, laid.sit, laid.cp, metaSegments]
  ring

/-- The end of the main area is a block address. -/
theorem words : volume.sb.segment0Blkaddr +
    (volume.metaSegments + volume.sb.segmentCountMain) * blksPerSeg < 2 ^ 32 := by
  have total : (volume.metaSegments + volume.sb.segmentCountMain) * blksPerSeg ≤
      volume.sb.segmentCount * blksPerSeg := Nat.mul_le_mul_right _ volume.laid.total
  have limit := volume.laid.words
  omega

/-- `start_segno`. -/
theorem startSegno_eq :
    sub32 volume.sb.mainBlkaddr volume.sb.segment0Blkaddr >>> volume.sb.logBlocksPerSeg =
      volume.metaSegments := by
  have limit := volume.words
  rw [Nat.add_mul] at limit
  have shifted : (volume.metaSegments * blksPerSeg) >>> 9 = volume.metaSegments := by
    rw [Nat.shiftRight_eq_div_pow]
    exact Nat.mul_div_cancel _ (Nat.two_pow_pos 9)
  rw [volume.mainBlkaddr_eq, volume.logBlocksPerSeg_eq, sub32_of_le (Nat.le_add_right _ _) (by omega),
    Nat.add_sub_cancel_left, shifted]

/-- The values `init_sb_info` and `build_segment_manager` take from the superblock and the first
checkpoint. -/
def sbi (options : MountOptions) : Sbi where
  seg0Blkaddr := volume.sb.segment0Blkaddr
  startSegno :=
    sub32 volume.sb.mainBlkaddr volume.sb.segment0Blkaddr >>> volume.sb.logBlocksPerSeg
  logBlocksPerSeg := volume.sb.logBlocksPerSeg
  segsPerSec := volume.sb.segsPerSec
  secsPerZone := volume.sb.secsPerZone
  totalSections := volume.sb.sectionCount
  mainSegments := volume.sb.segmentCountMain
  reservedSegments := volume.config.reservedSegments
  sitBaseAddr := volume.sb.sitBlkaddr
  sitBlocks := (volume.sb.segmentCountSit / 2) <<< volume.sb.logBlocksPerSeg
  maxDiscards := options.maxDiscards
  maxVictimSearch := options.maxVictimSearch
  noheap := options.noheap
  discard := options.discard
  f2fsDaMap := true
  log_bounds := by rw [volume.logBlocksPerSeg_eq]; decide
  segsPerSec_pos := by
    rw [volume.sb_eq]
    exact volume.ordinary.segsPerSec_pos
  secsPerZone_pos := by
    rw [volume.sb_eq]
    exact volume.ordinary.secsPerZone_pos
  main_eq := by
    have sections := volume.laid.sections
    rw [volume.sb_eq] at sections ⊢
    exact sections
  seg0_pos := by have first := volume.laid.superblocks; omega
  addresses_fit := by
    rw [volume.startSegno_eq, volume.logBlocksPerSeg_eq]
    exact volume.words

/-- The fields of the superblock which place the areas. -/
def sup (options : MountOptions) : MetaSuper where
  sbi := volume.sbi options
  cpBlkaddr := volume.sb.cpBlkaddr
  cpPayload := volume.sb.cpPayload
  ssaBlkaddr := volume.sb.ssaBlkaddr
  natBlkaddr := volume.sb.natBlkaddr
  natSegs := volume.sb.segmentCountNat / 2

/-! ## The tables -/

/-- A zeroed NAT entry. -/
def zeroNat : RawNat := ⟨0, 0, 0⟩

/-- A zeroed SIT entry. -/
def zeroSit : RawSit := ⟨0, .empty, 0⟩

/-- `f2fs_init_sit_area`: the first copy of the SIT. -/
def initSitArea : List (Nat × MetaBlock) :=
  Device.consecutive volume.sb.sitBlkaddr
    (List.replicate (volume.sb.segmentCountSit / 2 * blksPerSeg) (.sit fun _ => zeroSit))

/-- `f2fs_init_nat_area`: every other segment of the NAT. -/
def initNatArea : List (Nat × MetaBlock) :=
  (List.range (volume.sb.segmentCountNat / 2)).flatMap fun index =>
    Device.consecutive (volume.sb.natBlkaddr + 2 * index * blksPerSeg)
      (List.replicate blksPerSeg (.nat fun _ => zeroNat))

/-! ## The root directory -/

/-- The block of a log where its first page goes. -/
def logBlkaddr (type : CursegType) : Nat :=
  u32 (volume.sb.mainBlkaddr + u32 (volume.curSeg type * blksPerSeg))

/-- Bytes of a block. -/
def bytesBlock (page : Page) : MetaBlock := .pack (.bytes page)

/-- A page of bytes 255. -/
def onesPage : Page := fun _ => 255

/-- What `mkfs` asks its host for. -/
structure Host where
  uid : UInt32
  gid : UInt32
  time : UInt32

/-- Offset of `i_addr` in `struct f2fs_inode`. -/
def inodeAddr : Nat := 360

/-- The words of the root inode block, which are stored in zeros. -/
def rootInodeWords (host : Host) : List (Nat × UInt32) :=
  [(4, host.uid), (8, host.gid), (12, 2), (16, 4096), (24, 2), (32, host.time), (40, host.time),
    (48, host.time), (72, 1), (348, 0), (352, UInt32.ofNat (volume.logBlkaddr .hotData)), (356, 1),
    (inodeAddr, UInt32.ofNat (volume.logBlkaddr .hotData)),
    (nodeFooterNid, UInt32.ofNat volume.sb.rootIno),
    (nodeFooterNid + 4, UInt32.ofNat volume.sb.rootIno), (nodeFooterNid + 12, 1),
    (nodeFooterNid + 20, UInt32.ofNat (volume.logBlkaddr .hotNode + 1))]

/-- The block of the root inode. -/
def rootInodePage (host : Host) : Page :=
  (Page.zero.putLe16 0 0x41ed).putWords (volume.rootInodeWords host)

/-- `f2fs_write_root_inode`, with the dummy block behind each page.  The start of the warm node log is
overwritten so that a recovery stops there. -/
def writeRootInode (host : Host) : List (Nat × MetaBlock) :=
  Device.consecutive (volume.logBlkaddr .hotNode)
      [bytesBlock (volume.rootInodePage host), bytesBlock Page.zero] ++
    Device.consecutive (volume.logBlkaddr .warmNode) [bytesBlock onesPage, bytesBlock onesPage]

/-- The NAT block `f2fs_update_nat_root` writes. -/
def natRootBlock : Nat → RawNat :=
  Function.update
    (Function.update
      (Function.update (fun _ => zeroNat) volume.sb.rootIno
        ⟨0, volume.sb.rootIno, volume.logBlkaddr .hotNode⟩)
      volume.sb.nodeIno ⟨0, volume.sb.nodeIno, 1⟩)
    volume.sb.metaIno ⟨0, volume.sb.metaIno, 1⟩

/-- `f2fs_update_nat_root`. -/
def updateNatRoot : List (Nat × MetaBlock) := [(volume.sb.natBlkaddr, .nat volume.natRootBlock)]

/-- Offset of `dentry` in `struct f2fs_dentry_block`. -/
def dentryOffset : Nat := 30

/-- `SIZE_OF_DIR_ENTRY`. -/
def sizeOfDirEntry : Nat := 11

/-- Offset of `filename`. -/
def filenameOffset : Nat := dentryOffset + sizeOfDirEntry * nrDentryInBlock

/-- Store an entry for a directory and its name of dots. -/
def putDots (page : Page) (slot length : Nat) (ino : UInt32) : Page :=
  let entry := dentryOffset + sizeOfDirEntry * slot
  ((((page.putLe32 entry 0).putLe32 (entry + 4) ino).putLe16 (entry + 8) length).putByte
    (entry + 10) 2).copy (filenameOffset + 8 * slot) (fun _ => 0x2E) 0 length

/-- The block of the root directory. -/
def rootDentryPage : Page :=
  let ino := UInt32.ofNat volume.sb.rootIno
  (putDots (putDots Page.zero 0 1 ino) 1 2 ino).putByte 0 3

/-- `f2fs_add_default_dentry_root`, with a dummy block. -/
def addDefaultDentryRoot : List (Nat × MetaBlock) :=
  Device.consecutive (volume.logBlkaddr .hotData)
    [bytesBlock volume.rootDentryPage, bytesBlock Page.zero]

/-! ## The checkpoint packs -/

/-- `cur_node_blkoff` and `cur_data_blkoff`: the dummy blocks are passed over. -/
def curBlkoff : CursegType → Nat
  | .hotNode | .hotData | .warmNode => 2
  | .warmData | .coldData | .coldNode => 0

/-- The fields of the checkpoint block. -/
def checkpoint (version : BitVec 64) : RawCheckpoint where
  checkpointVer := version
  elapsedTime := 0
  validBlockCount := 2
  freeSegmentCount := sub32 volume.sb.segmentCountMain 6
  curSegno := volume.curSeg
  curBlkoff := curBlkoff
  allocType _ := .lfs
  validNodeCount := 1
  validInodeCount := 1
  nextFreeNid := volume.sb.rootIno + 1
  cpPackTotalBlockCount := 6 + volume.sb.cpPayload
  cpPackStartSum := 1 + volume.sb.cpPayload
  umountFlag := true
  orphanPresentFlag := false
  compactSumFlag := true
  fsckFlag := false
  sitVerBitmapBytesize := versionBitmapBytes volume.sb.segmentCountSit
  checksumOffset := mkfsChecksumOffset
  sitBitmap := .empty
  natBitmap := .empty

/-- The summary block with the NAT journal, which has the entry of the root directory. -/
def natJournalPage : Page :=
  ((((Page.zero.putLe16 journalOffset 1).putLe32 (journalOffset + 2)
    (UInt32.ofNat volume.sb.rootIno)).putByte (journalOffset + 6) 0).putLe32 (journalOffset + 7)
      (UInt32.ofNat volume.sb.rootIno)).putLe32 (journalOffset + 11)
        (UInt32.ofNat (volume.logBlkaddr .hotNode))

/-- Offset of an entry of `sit_j` in `struct f2fs_summary_block`. -/
def sitJournalOffset (index : Nat) : Nat := journalOffset + 2 + 78 * index

/-- Store the entry of a log's segment; a first valid block is the highest bit of the map. -/
def putSitJournal (page : Page) (index segno : Nat) (type : CursegType) (valid : Bool) : Page :=
  let entry := sitJournalOffset index
  ((page.putLe32 entry (UInt32.ofNat segno)).putLe16 (entry + 4)
    (type.toNat <<< sitVblocksShift ||| valid.toNat)).putByte (entry + 6)
      (if valid then 0x80 else 0)

/-- The logs in the order of their entries in the SIT journal, with the block `mkfs` gives them. -/
def journalLogs : List (CursegType × Bool) :=
  [(.hotNode, true), (.warmNode, false), (.coldNode, false), (.hotData, true), (.warmData, false),
    (.coldData, false)]

/-- The summary block with the SIT journal. -/
def sitJournalPage : Page :=
  journalLogs.zipIdx.foldl
    (fun page log => putSitJournal page log.2 (volume.curSeg log.1.1) log.1.1 log.1.2)
    (Page.zero.putLe16 journalOffset 6)

/-- The page of compacted summaries: the two journals and the entry of the root directory's block. -/
def compactedPage : Page :=
  ((Page.zero.copy 0 volume.natJournalPage journalOffset sumJournalSize).copy sumJournalSize
    volume.sitJournalPage journalOffset sumJournalSize).putLe32 (2 * sumJournalSize)
      (UInt32.ofNat volume.sb.rootIno)

/-- The summary block of a node log without entries. -/
def nodeSumPage : Page := Page.zero.putByte footerOffset 1

/-- The blocks of the first pack of `f2fs_write_check_point_pack`. -/
def firstPack (image : RawCheckpoint → Page) : List (Nat × MetaBlock) :=
  let cp : MetaBlock := .pack (.checkpoint (sealCheckpoint image (volume.checkpoint 1)))
  Device.consecutive volume.sb.segment0Blkaddr
    ([cp] ++ List.replicate volume.sb.cpPayload (bytesBlock Page.zero) ++
      [bytesBlock volume.compactedPage,
        bytesBlock (nodeSumPage.putLe32 0 (UInt32.ofNat volume.sb.rootIno)),
        bytesBlock nodeSumPage, bytesBlock nodeSumPage, cp])

/-- The address of the second pack, in bytes a word of 32 bits. -/
def secondPackBlkaddr : Nat := u32 ((volume.sb.segment0Blkaddr + blksPerSeg) * 4096) / 4096

/-- The blocks of the second pack, which has version 0 and no summaries. -/
def secondPack (image : RawCheckpoint → Page) : List (Nat × MetaBlock) :=
  let cp : MetaBlock := .pack (.checkpoint (sealCheckpoint image (volume.checkpoint 0)))
  Device.consecutive volume.secondPackBlkaddr
      ([cp] ++ List.replicate volume.sb.cpPayload (bytesBlock Page.zero)) ++
    [(volume.secondPackBlkaddr + volume.sb.cpPayload +
      ((volume.checkpoint 0).cpPackTotalBlockCount - volume.sb.cpPayload - 1), cp)]

/-- `f2fs_write_super_block`; the bytes of the superblock are left open. -/
def writeSuperBlock (superPage : Page) : List (Nat × MetaBlock) :=
  Device.consecutive 0 [bytesBlock superPage, bytesBlock superPage]

/-- `f2fs_format_device` behind `f2fs_prepare_super_block`: the blocks written, in their order. -/
def formatDevice (image : RawCheckpoint → Page) (superPage : Page) (host : Host) :
    List (Nat × MetaBlock) :=
  volume.initSitArea ++ volume.initNatArea ++ volume.writeRootInode host ++ volume.updateNatRoot ++
    volume.addDefaultDentryRoot ++ volume.firstPack image ++ volume.secondPack image ++
    writeSuperBlock superPage

end NewVolume

/-- The new volume of a device of 1 GiB. -/
def gibibyteVolume : NewVolume where
  config := gibibyteConfig
  sb := gibibyteConfig.superBlock
  curSeg := gibibyteConfig.curSeg 502
  ordinary := gibibyteConfig_ordinary
  prepared := f2fsPrepareSuperBlock_gibibyte
  bitmaps := by
    have segments : gibibyteConfig.segmentCount = 511 := by rfl
    refine (bitmapsFit_superBlock_iff gibibyteConfig_ordinary).mpr ?_
    rw [segments]
    decide

end F2fs
end StorageStack
