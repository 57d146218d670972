import StorageStack.BlockDevice
import StorageStack.F2fs.SitFlush

/-!
# Checkpoint packs

What `do_checkpoint` writes to the segment of its pack: the checkpoint block and its payload, the
orphan blocks, the summaries of the logs and the checkpoint block once more.  A mount finds each of
them by a calculation of its own from the fields of the checkpoint block.
-/

namespace StorageStack
namespace F2fs

/-- `SUMMARY_SIZE`. -/
def summarySize : Nat := 7

/-- `SUM_FOOTER_SIZE`. -/
def sumFooterSize : Nat := 5

/-- `ENTRIES_IN_SUM`. -/
def entriesInSum : Nat := 512

/-- `SUM_JOURNAL_SIZE`. -/
def sumJournalSize : Nat := pageCacheSize - sumFooterSize - summarySize * entriesInSum

/-- Offset of the journal in `struct f2fs_summary_block`. -/
def journalOffset : Nat := summarySize * entriesInSum

/-- Offset of the footer in `struct f2fs_summary_block`. -/
def footerOffset : Nat := pageCacheSize - sumFooterSize

/-- `F2FS_ORPHANS_PER_BLOCK`. -/
def orphansPerBlock : Nat := 1020

/-- `F2FS_CP_PACKS`. -/
def cpPacks : Nat := 2

/-- `NR_CURSEG_DATA_TYPE` and `NR_CURSEG_NODE_TYPE`. -/
def nrCursegDataType : Nat := 3

@[inherit_doc nrCursegDataType]
def nrCursegNodeType : Nat := 3

/-- `NR_CURSEG_TYPE`. -/
def nrCursegType : Nat := nrCursegDataType + nrCursegNodeType

/-- `GET_ORPHAN_BLOCKS`. -/
def getOrphanBlocks (count : Nat) : Nat := (count + orphansPerBlock - 1) / orphansPerBlock

/-- `F2FS_SUPER_MAGIC`. -/
def f2fsSuperMagic : UInt32 := 0xF2F52010

/-- `CRCPOLY_LE`. -/
def crcpolyLe : UInt32 := 0xedb88320

/-- One of the eight rounds `f2fs_crc32` makes for a byte. -/
def crcRound (crc : UInt32) : UInt32 := (crc >>> 1) ^^^ (if crc &&& 1 = 1 then crcpolyLe else 0)

/-- `f2fs_crc32`. -/
def f2fsCrc32 (page : Page) (len : Nat) : UInt32 :=
  (List.range len).foldl
    (fun crc index => Nat.iterate crcRound 8 (crc ^^^ (page index).toUInt32)) f2fsSuperMagic

/-! ## The checkpoint block -/

/-- `struct f2fs_checkpoint` up to its checksum. -/
structure RawCheckpoint where
  checkpointVer : BitVec 64
  elapsedTime : Nat
  validBlockCount : Nat
  freeSegmentCount : Nat
  /-- `cur_data_segno` and `cur_node_segno`. -/
  curSegno : CursegType → Nat
  /-- `cur_data_blkoff` and `cur_node_blkoff`. -/
  curBlkoff : CursegType → Nat
  allocType : CursegType → AllocType
  validNodeCount : Nat
  validInodeCount : Nat
  nextFreeNid : Nat
  cpPackTotalBlockCount : Nat
  cpPackStartSum : Nat
  /-- `CP_UMOUNT_FLAG`. -/
  umountFlag : Bool
  /-- `CP_ORPHAN_PRESENT_FLAG`. -/
  orphanPresentFlag : Bool
  /-- `CP_COMPACT_SUM_FLAG`. -/
  compactSumFlag : Bool
  /-- `CP_FSCK_FLAG`. -/
  fsckFlag : Bool
  sitVerBitmapBytesize : Nat
  checksumOffset : Nat
  /-- The SIT part of `sit_nat_version_bitmap`, which a volume with a payload does not use. -/
  sitBitmap : BitMap
  /-- The NAT part of `sit_nat_version_bitmap`. -/
  natBitmap : BitMap

/-- The checkpoint block with the word at `checksum_offset`. -/
structure CpBlock where
  raw : RawCheckpoint
  checksum : UInt32

/-- A block of the device.  The place of the fields of a checkpoint in its block is left open. -/
inductive Block where
  | checkpoint (block : CpBlock)
  | bytes (page : Page)

/-- The bytes of a checkpoint block, when the layout of `struct f2fs_checkpoint` is `image`. -/
def CpBlock.page (image : RawCheckpoint → Page) (block : CpBlock) : Page :=
  (image block.raw).putLe32 block.raw.checksumOffset block.checksum

/-- The bytes of a block. -/
def Block.page (image : RawCheckpoint → Page) : Block → Page
  | .checkpoint block => block.page image
  | .bytes page => page

/-- `f2fs_crc_valid` of the checkpoint block, after the test of its `checksum_offset`. -/
def CpBlock.crcValid (image : RawCheckpoint → Page) (block : CpBlock) : Bool :=
  decide (block.raw.checksumOffset < pageCacheSize) &&
    f2fsCrc32 (image block.raw) block.raw.checksumOffset == block.checksum

/-- The fields of the superblock which place the checkpoint packs. -/
structure CpSuper where
  sbi : Sbi
  cpBlkaddr : Nat
  cpPayload : Nat
  ssaBlkaddr : Nat

/-- `__start_cp_addr`: odd versions use the first of the two segments. -/
def startCpAddr (sup : CpSuper) (version : BitVec 64) : Nat :=
  if version &&& 1 = 0 then sup.cpBlkaddr + sup.sbi.blocksPerSeg else sup.cpBlkaddr

/-- `struct curseg_info` with the bytes of its summary block. -/
structure PackCurseg (sbi : Sbi) where
  sumBlk : Page
  allocType : AllocType
  segno : Nat
  nextBlkoff : Nat
  /-- A log stands in its segment or at the end of it. -/
  nextBlkoff_le : nextBlkoff ≤ sbi.blocksPerSeg

/-- What `do_checkpoint` reads of `struct f2fs_sb_info`. -/
structure CpState (sup : CpSuper) where
  /-- The first block of the buffer `ckpt`. -/
  ckpt : RawCheckpoint
  /-- The other blocks of the buffer, by their number from 1. -/
  payload : Nat → Page
  nOrphans : Nat
  /-- `ino_list[ORPHAN_INO]`. -/
  orphans : List UInt32
  /-- The inode numbers are the keys of a radix tree. -/
  orphans_nodup : orphans.Nodup
  curseg : CursegType → PackCurseg sup.sbi
  needFsck : Bool
  /-- `get_mtime`. -/
  mtime : Nat
  validUserBlocks : Nat
  freeSegments : Nat
  validNodeCount : Nat
  validInodeCount : Nat
  /-- `last_nid` after `next_free_nid`. -/
  lastNid : Nat
  sitBitmap : BitMap
  natBitmap : BitMap
  /-- The buffer was read by `get_valid_checkpoint`. -/
  checksumOffset_lt : ckpt.checksumOffset < pageCacheSize

/-- `max_orphans`. -/
def CpSuper.maxOrphans (sup : CpSuper) : Nat :=
  (sup.sbi.blocksPerSeg - cpPacks - nrCursegType) * orphansPerBlock

/-- The logs of data. -/
def dataLogs : List CursegType := [.hotData, .warmData, .coldData]

/-- The logs of nodes. -/
def nodeLogs : List CursegType := [.hotNode, .warmNode, .coldNode]

/-- The entries of a log's summary block which a checkpoint keeps. -/
def keptEntries (sup : CpSuper) (allocType : AllocType) (blkoff : Nat) : Nat :=
  match allocType with
  | .ssr => sup.sbi.blocksPerSeg
  | .lfs => blkoff

/-- The summaries a compacted page takes behind the two journals. -/
def sumInFirstPage : Nat := (pageCacheSize - 2 * sumJournalSize - sumFooterSize) / summarySize

/-- The summaries a compacted page takes. -/
def sumInPage : Nat := (pageCacheSize - sumFooterSize) / summarySize

/-- `valid_sum_count` in `npages_for_summary_flush`. -/
def validSumCount (sup : CpSuper) (s : CpState sup) : Nat :=
  (dataLogs.map fun type =>
    keptEntries sup (s.curseg type).allocType (s.curseg type).nextBlkoff).sum

/-- `npages_for_summary_flush`. -/
def npagesForSummaryFlush (sup : CpSuper) (s : CpState sup) : Nat :=
  if validSumCount sup s ≤ sumInFirstPage then 1
  else if validSumCount sup s - sumInFirstPage ≤ sumInPage then 2
  else 3

/-- The blocks of the node summaries, which only an unmount writes. -/
def nodeSumBlocks (reason : CpReason) : Nat :=
  match reason with
  | .umount => nrCursegNodeType
  | .sync | .discard => 0

/-- A byte of a version bit map, its first bit the highest. -/
def versionByte (map : BitMap) (index : Nat) : UInt8 :=
  UInt8.ofNat (((List.range 8).map fun bit =>
    if map (8 * index + bit) then 2 ^ (7 - bit) else 0).sum)

/-- `get_sit_bitmap` into the payload, when there is one. -/
def putSitBitmap (sup : CpSuper) (s : CpState sup) (block : Nat) : Page := fun offset =>
  let index := (block - 1) * pageCacheSize + offset
  if 0 < sup.cpPayload ∧ index < s.ckpt.sitVerBitmapBytesize then versionByte s.sitBitmap index
  else s.payload block offset

/-- The fields `do_checkpoint` sets in the checkpoint block. -/
def updateCheckpoint (sup : CpSuper) (reason : CpReason) (s : CpState sup) : RawCheckpoint :=
  { s.ckpt with
    elapsedTime := s.mtime
    validBlockCount := s.validUserBlocks
    freeSegmentCount := s.freeSegments
    curSegno := fun type => (s.curseg type).segno
    curBlkoff := fun type => (s.curseg type).nextBlkoff
    allocType := fun type => (s.curseg type).allocType
    validNodeCount := s.validNodeCount
    validInodeCount := s.validInodeCount
    nextFreeNid := s.lastNid
    compactSumFlag := decide (npagesForSummaryFlush sup s < nrCursegDataType)
    cpPackStartSum := 1 + sup.cpPayload + getOrphanBlocks s.nOrphans
    umountFlag := reason == .umount
    cpPackTotalBlockCount :=
      cpPacks + sup.cpPayload + npagesForSummaryFlush sup s + getOrphanBlocks s.nOrphans +
        nodeSumBlocks reason
    orphanPresentFlag := s.nOrphans != 0
    fsckFlag := s.ckpt.fsckFlag || s.needFsck
    sitBitmap := if 0 < sup.cpPayload then s.ckpt.sitBitmap else s.sitBitmap
    natBitmap := s.natBitmap }

/-- The checkpoint block with its checksum. -/
def sealCheckpoint (image : RawCheckpoint → Page) (raw : RawCheckpoint) : CpBlock :=
  ⟨raw, f2fsCrc32 (image raw) raw.checksumOffset⟩

/-! ## Orphan blocks -/

/-- Offset of `blk_addr` in `struct f2fs_orphan_block`. -/
def orphanBlkAddr : Nat := 4084

/-- Offset of `blk_count`. -/
def orphanBlkCount : Nat := 4086

/-- Offset of `entry_count`. -/
def orphanEntryCount : Nat := 4088

/-- The variables of the loop in `write_orphan_inodes`. -/
structure OrphanWriter where
  startBlk : Nat
  index : Nat
  /-- The current block and its address, if there is one. -/
  page : Option (Nat × Page)
  nentries : Nat
  /-- The blocks set dirty so far. -/
  written : List (Nat × Block)

/-- An orphan block with its three counters. -/
def finishOrphanBlock (page : Page) (index orphanBlocks nentries : Nat) : Page :=
  ((page.putLe16 orphanBlkAddr index).putLe16 orphanBlkCount orphanBlocks).putLe32
    orphanEntryCount (UInt32.ofNat nentries)

/-- Set the current block dirty. -/
def OrphanWriter.flush (orphanBlocks : Nat) (writer : OrphanWriter) (address : Nat) (page : Page) :
    OrphanWriter :=
  { writer with
    index := writer.index + 1
    page := none
    nentries := 0
    written := writer.written ++
      [(address, .bytes (finishOrphanBlock page writer.index orphanBlocks writer.nentries))] }

/-- The block of the next inode number.  Without a block grabbed for the pack the source follows a
null pointer, which has no result here. -/
def OrphanWriter.openBlock (limit : Nat) (writer : OrphanWriter) :
    Option (OrphanWriter × Nat × Page) :=
  match writer.page with
  | some (address, page) => some (writer, address, page)
  | none =>
      if writer.startBlk < limit then
        some ({ writer with startBlk := writer.startBlk + 1 }, writer.startBlk, Page.zero)
      else none

/-- One round of the loop. -/
def writeOrphan (start orphanBlocks : Nat) (writer : OrphanWriter) (ino : UInt32) :
    Option OrphanWriter :=
  (writer.openBlock (start + orphanBlocks)).map fun (writer, address, page) =>
    let page := page.putLe32 (4 * writer.nentries) ino
    let filled := { writer with page := some (address, page), nentries := writer.nentries + 1 }
    if filled.nentries = orphansPerBlock then filled.flush orphanBlocks address page else filled

/-- The blocks of the writer with the last one. -/
def OrphanWriter.blocks (orphanBlocks : Nat) (writer : OrphanWriter) : List (Nat × Block) :=
  match writer.page with
  | some (address, page) => (writer.flush orphanBlocks address page).written
  | none => writer.written

/-- `write_orphan_inodes`: the blocks it sets dirty. -/
def writeOrphanInodes (start orphanBlocks : Nat) (orphans : List UInt32) :
    Option (List (Nat × Block)) :=
  (orphans.foldlM (writeOrphan start orphanBlocks) ⟨start, 1, none, 0, []⟩).map
    (OrphanWriter.blocks orphanBlocks)

/-! ## Summaries -/

/-- The variables of `write_compacted_summaries`. -/
structure SumWriter where
  blkaddr : Nat
  /-- The current block and its address, if there is one. -/
  page : Option (Nat × Page)
  writtenSize : Nat
  /-- The blocks set dirty so far. -/
  written : List (Nat × Block)

/-- Whether another summary fits behind `offset` in a compacted page. -/
def sumFits (offset : Nat) : Bool :=
  decide (offset + summarySize ≤ pageCacheSize - sumFooterSize)

/-- The block of the next summary, which `write_compacted_summaries` grabs when it has none. -/
def SumWriter.openBlock (stale : Nat → Page) (writer : SumWriter) : SumWriter × Nat × Page :=
  match writer.page with
  | some (address, page) => (writer, address, page)
  | none =>
      ({ writer with blkaddr := writer.blkaddr + 1, writtenSize := 0 }, writer.blkaddr,
        stale writer.blkaddr)

/-- One round of the inner loop of `write_compacted_summaries` for an entry of a summary block. -/
def writeSummary (stale : Nat → Page) (writer : SumWriter) (entry : Page × Nat) : SumWriter :=
  let (writer, address, page) := writer.openBlock stale
  let page := page.copy writer.writtenSize entry.1 (summarySize * entry.2) summarySize
  let size := writer.writtenSize + summarySize
  if sumFits size then { writer with page := some (address, page), writtenSize := size }
  else
    { writer with
      page := none
      writtenSize := size
      written := writer.written ++ [(address, .bytes page)] }

/-- The blocks of the writer with the last one. -/
def SumWriter.blocks (writer : SumWriter) : List (Nat × Block) :=
  match writer.page with
  | some (address, page) => writer.written ++ [(address, .bytes page)]
  | none => writer.written

/-- The page with the two journals, `stale` being what the page cache has in it. -/
def journalPage {sup : CpSuper} (stale : Page) (s : CpState sup) : Page :=
  (stale.copy 0 (s.curseg .hotData).sumBlk journalOffset sumJournalSize).copy sumJournalSize
    (s.curseg .coldData).sumBlk journalOffset sumJournalSize

/-- The entries of the data logs a checkpoint keeps: summary block and index. -/
def keptSummaries (sup : CpSuper) (s : CpState sup) : List (Page × Nat) :=
  dataLogs.flatMap fun type =>
    (List.range (keptEntries sup (s.curseg type).allocType (s.curseg type).nextBlkoff)).map
      fun index => ((s.curseg type).sumBlk, index)

/-- `write_compacted_summaries`. -/
def writeCompactedSummaries (stale : Nat → Page) (sup : CpSuper) (s : CpState sup) (blkaddr : Nat) :
    List (Nat × Block) :=
  ((keptSummaries sup s).foldl (writeSummary stale)
    ⟨blkaddr + 1, some (blkaddr, journalPage (stale blkaddr) s), 2 * sumJournalSize, []⟩).blocks

/-- `write_normal_summaries` of the logs of one kind. -/
def writeNormalSummaries {sup : CpSuper} (s : CpState sup) (blkaddr : Nat) (types : List CursegType) :
    List (Nat × Block) :=
  Device.consecutive blkaddr (types.map fun type => .bytes (s.curseg type).sumBlk)

/-- `write_data_summaries`. -/
def writeDataSummaries (stale : Nat → Page) (sup : CpSuper) (s : CpState sup) (blkaddr : Nat) :
    List (Nat × Block) :=
  if npagesForSummaryFlush sup s < nrCursegDataType then writeCompactedSummaries stale sup s blkaddr
  else writeNormalSummaries s blkaddr dataLogs

/-- `write_node_summaries`, which `do_checkpoint` calls on an unmount. -/
def writeNodeSummaries {sup : CpSuper} (reason : CpReason) (s : CpState sup) (blkaddr : Nat) :
    List (Nat × Block) :=
  match reason with
  | .umount => writeNormalSummaries s blkaddr nodeLogs
  | .sync | .discard => []

/-- The blocks of the pack `do_checkpoint` writes, in the order of their addresses.  `stale` is what
the page cache holds in the pages it grabs. -/
def doCheckpoint (image : RawCheckpoint → Page) (stale : Nat → Page) (sup : CpSuper)
    (reason : CpReason) (s : CpState sup) : Option (List (Nat × Block)) :=
  let block := sealCheckpoint image (updateCheckpoint sup reason s)
  let start := startCpAddr sup s.ckpt.checkpointVer
  let orphanBlocks := getOrphanBlocks s.nOrphans
  let orphanStart := start + 1 + sup.cpPayload
  let sumStart := orphanStart + orphanBlocks
  let nodeStart := sumStart + npagesForSummaryFlush sup s
  let orphans :=
    if s.nOrphans ≠ 0 then writeOrphanInodes orphanStart orphanBlocks s.orphans else some []
  orphans.map fun orphans =>
    [(start, .checkpoint block)] ++
      Device.consecutive (start + 1)
        ((List.range sup.cpPayload).map fun index => .bytes (putSitBitmap sup s (index + 1))) ++
      orphans ++ writeDataSummaries stale sup s sumStart ++ writeNodeSummaries reason s nodeStart ++
      [(nodeStart + nodeSumBlocks reason, .checkpoint block)]

/-! ## Reading a pack -/

/-- `validate_checkpoint`: the version and the first checkpoint block.  A block which is no
checkpoint block fails its checksum. -/
def validateCheckpoint (image : RawCheckpoint → Page) (device : Device Block) (cpAddr : Nat) :
    Option (BitVec 64 × CpBlock) :=
  match device cpAddr with
  | .bytes _ => none
  | .checkpoint first =>
      if first.crcValid image then
        match device (cpAddr + first.raw.cpPackTotalBlockCount - 1) with
        | .bytes _ => none
        | .checkpoint second =>
            if second.crcValid image ∧ second.raw.checkpointVer = first.raw.checkpointVer then
              some (second.raw.checkpointVer, first)
            else none
      else none

/-- The blocks `recover_orphan_inodes` reads and the inode numbers it passes to
`recover_orphan_inode`. -/
structure OrphanRecovery where
  blocks : List Nat
  inos : List UInt32

/-- The inode numbers in an orphan block. -/
def orphanInos (page : Page) : List UInt32 :=
  (List.range (page.le32 orphanEntryCount).toNat).map fun index => page.le32 (4 * index)

/-- `recover_orphan_inodes`. -/
def recoverOrphanInodes (image : RawCheckpoint → Page) (sup : CpSuper) (ckpt : RawCheckpoint)
    (device : Device Block) : OrphanRecovery :=
  if ckpt.orphanPresentFlag then
    let startBlk := startCpAddr sup ckpt.checkpointVer + 1 + sup.cpPayload
    let orphanBlkaddr := ckpt.cpPackStartSum - 1
    let blocks := (List.range orphanBlkaddr).map (startBlk + ·)
    ⟨blocks, blocks.flatMap fun address => orphanInos ((device address).page image)⟩
  else ⟨[], []⟩

/-- `start_sum_block`. -/
def startSumBlock (sup : CpSuper) (ckpt : RawCheckpoint) : Nat :=
  startCpAddr sup ckpt.checkpointVer + ckpt.cpPackStartSum

/-- `sum_blk_addr`. -/
def sumBlkAddr (sup : CpSuper) (ckpt : RawCheckpoint) (base type : Nat) : Nat :=
  startCpAddr sup ckpt.checkpointVer + ckpt.cpPackTotalBlockCount - (base + 1) + type

/-- The footer `reset_curseg` gives a summary block. -/
def resetFooter (type : CursegType) (sum : Page) : Page := fun index =>
  if index < footerOffset ∨ pageCacheSize ≤ index then sum index
  else if index = footerOffset ∧ type.isNodeseg then 1
  else 0

/-- The variables of `read_compacted_summaries`. -/
structure SumReader where
  start : Nat
  page : Page
  offset : Nat
  /-- The summary blocks of the logs. -/
  sums : CursegType → Page

/-- One round of the inner loop of `read_compacted_summaries`. -/
def readSummary (image : RawCheckpoint → Page) (device : Device Block) (type : CursegType)
    (reader : SumReader) (index : Nat) : SumReader :=
  let sum := (reader.sums type).copy (summarySize * index) reader.page reader.offset summarySize
  let sums := Function.update reader.sums type sum
  let offset := reader.offset + summarySize
  if sumFits offset then { reader with offset := offset, sums := sums }
  else ⟨reader.start + 1, (device reader.start).page image, 0, sums⟩

/-- One round of the outer loop. -/
def readLogSummaries (image : RawCheckpoint → Page) (device : Device Block) (sup : CpSuper)
    (ckpt : RawCheckpoint) (reader : SumReader) (type : CursegType) : SumReader :=
  let reset :=
    { reader with
      sums := Function.update reader.sums type (resetFooter type (reader.sums type)) }
  (List.range (keptEntries sup (ckpt.allocType type) (ckpt.curBlkoff type))).foldl
    (readSummary image device type) reset

/-- `read_compacted_summaries` into the zeroed summary blocks of the data logs. -/
def readCompactedSummaries (image : RawCheckpoint → Page) (sup : CpSuper) (ckpt : RawCheckpoint)
    (device : Device Block) : CursegType → Page :=
  let start := startSumBlock sup ckpt
  let page := (device start).page image
  let hot := Page.zero.copy journalOffset page 0 sumJournalSize
  let cold := Page.zero.copy journalOffset page sumJournalSize sumJournalSize
  let sums := Function.update (Function.update (fun _ => Page.zero) CursegType.hotData hot)
    CursegType.coldData cold
  (dataLogs.foldl (readLogSummaries image device sup ckpt)
    ⟨start + 1, page, 2 * sumJournalSize, sums⟩).sums

/-- The summary block of a node log with `version` and `ofs_in_node` of its entries cleared. -/
def clearVersions (sup : CpSuper) (sum : Page) : Page := fun index =>
  if index < summarySize * sup.sbi.blocksPerSeg ∧ 4 ≤ index % summarySize then 0 else sum index

/-- Offset of `footer.nid` in `struct f2fs_node`. -/
def nodeFooterNid : Nat := 4072

/-- `restore_node_summary`, when the node pages can be read. -/
def restoreNodeSummary (image : RawCheckpoint → Page) (sup : CpSuper) (device : Device Block)
    (segno : Nat) (sum : Page) : Page :=
  clearVersions sup ((List.range sup.sbi.blocksPerSeg).foldl
    (fun sum index => sum.copy (summarySize * index)
      ((device (sup.sbi.startBlock segno + index)).page image) nodeFooterNid 4) sum)

/-- The address from which `read_normal_summaries` reads. -/
def normalSumAddr (sup : CpSuper) (ckpt : RawCheckpoint) (type : CursegType) : Nat :=
  if type.isDataseg then
    sumBlkAddr sup ckpt (if ckpt.umountFlag then nrCursegType else nrCursegDataType) type.toNat
  else if ckpt.umountFlag then
    sumBlkAddr sup ckpt nrCursegNodeType (type.toNat - CursegType.hotNode.toNat)
  else sup.ssaBlkaddr + ckpt.curSegno type

/-- The summary block `read_normal_summaries` gives a log. -/
def readNormalSummaries (image : RawCheckpoint → Page) (sup : CpSuper) (ckpt : RawCheckpoint)
    (device : Device Block) (type : CursegType) : Page :=
  let sum := (device (normalSumAddr sup ckpt type)).page image
  let restored :=
    if type.isDataseg then sum
    else if ckpt.umountFlag then clearVersions sup sum
    else restoreNodeSummary image sup device (ckpt.curSegno type) sum
  resetFooter type restored

/-- The summary blocks `restore_curseg_summaries` gives the logs. -/
def restoreSumBlocks (image : RawCheckpoint → Page) (sup : CpSuper) (ckpt : RawCheckpoint)
    (device : Device Block) (type : CursegType) : Page :=
  if ckpt.compactSumFlag ∧ type.isDataseg then readCompactedSummaries image sup ckpt device type
  else readNormalSummaries image sup ckpt device type

end F2fs
end StorageStack
