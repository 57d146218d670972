import StorageStack.F2fs.CheckpointPack
import StorageStack.F2fs.NodeManager

/-!
# The layout of a new volume

`f2fs_prepare_super_block` cuts a device into segments and divides them between the checkpoint packs,
the tables and the main area.  It computes in words of 32 bits and never looks back at the device, so
a layout is sound as long as none of its words wraps.
-/

namespace StorageStack
namespace F2fs

/-- A word of type `u_int32_t`. -/
def u32 (value : Nat) : Nat := value % 2 ^ 32

theorem u32_of_lt {value : Nat} (word : value < 2 ^ 32) : u32 value = value := Nat.mod_eq_of_lt word

/-- `ALIGN`, in words of 64 bits. -/
def align (value size : Nat) : Nat := (value + size - 1) / size

/-- `DEFAULT_BLOCKS_PER_SEGMENT`, which no option of `mkfs` changes. -/
def blksPerSeg : Nat := 512

/-- `SEG_ALIGN`. -/
def segAlign (blocks : Nat) : Nat := u32 (blocks + blksPerSeg - 1) / blksPerSeg

/-- `DEFAULT_SECTOR_SIZE`. -/
def defaultSectorSize : Nat := 512

/-- `F2FS_MIN_VOLUME_SIZE`. -/
def f2fsMinVolumeSize : Nat := 104857600

/-- `CHECKSUM_OFFSET`. -/
def mkfsChecksumOffset : Nat := 4092

/-- `sizeof(struct f2fs_checkpoint)`, with the first byte of the version bit maps. -/
def sizeofCheckpoint : Nat := 193

/-- `MAX_SIT_BITMAP_SIZE`. -/
def maxSitBitmapSize : Nat := 16 * 1024 * 1024 / 2 / sitEntryPerBlock / 8

/-- `log_base_2`, whose -1 becomes a word. -/
def logBase2 (number : Nat) : Nat :=
  if number = 0 ∨ number &&& (number - 1) ≠ 0 then 2 ^ 32 - 1 else number.log2

/-! ## The configuration -/

/-- The options of `mkfs.f2fs` which place something. -/
structure MkfsOptions where
  overprovision : Nat
  segsPerSec : Nat
  secsPerZone : Nat
  heap : Bool
  /-- The sector count behind the name of the device. -/
  totalSectors : Nat

/-- What `f2fs_get_device_info` asks a block device for. -/
structure DeviceInfo where
  sectorSize : Nat
  bytes : Nat
  startSector : Nat

/-- `struct f2fs_configuration`, as far as the layout depends on it. -/
structure Config where
  sectorSize : Nat
  sectorsPerBlk : Nat
  totalSectors : Nat
  startSector : Nat
  reservedSegments : Nat
  overprovision : Nat
  segsPerSec : Nat
  secsPerZone : Nat
  segsPerZone : Nat
  heap : Bool

/-- The sectors to format, of those the device has. -/
def chosenSectors (wanted available : Nat) : Nat :=
  if wanted ≠ 0 ∧ wanted < available then wanted else available

theorem chosenSectors_le (wanted available : Nat) : chosenSectors wanted available ≤ available := by
  unfold chosenSectors
  split
  · next fewer => exact fewer.2.le
  · exact Nat.le_refl _

/-- The last assignments of `f2fs_parse_options`, and `f2fs_get_device_info`.  A division by zero
ends the program. -/
def configure (options : MkfsOptions) (device : DeviceInfo) : Option Config :=
  let sectorSize := max defaultSectorSize device.sectorSize
  let totalSectors := chosenSectors options.totalSectors (device.bytes / sectorSize)
  if options.overprovision = 0 ∨ totalSectors < f2fsMinVolumeSize / defaultSectorSize then none
  else
    some
      { sectorSize := sectorSize
        sectorsPerBlk := pageCacheSize / sectorSize
        totalSectors := totalSectors
        startSector := device.startSector
        reservedSegments := u32 ((2 * (100 / options.overprovision + 1) + 6) * options.segsPerSec)
        overprovision := options.overprovision
        segsPerSec := options.segsPerSec
        secsPerZone := options.secsPerZone
        segsPerZone := u32 (options.segsPerSec * options.secsPerZone)
        heap := options.heap }

/-! ## The superblock -/

/-- `struct f2fs_super_block`. -/
structure SuperBlock where
  magic : UInt32
  logSectorsize : Nat
  logSectorsPerBlock : Nat
  logBlocksize : Nat
  logBlocksPerSeg : Nat
  segsPerSec : Nat
  secsPerZone : Nat
  blockCount : Nat
  sectionCount : Nat
  segmentCount : Nat
  segmentCountCkpt : Nat
  segmentCountSit : Nat
  segmentCountNat : Nat
  segmentCountSsa : Nat
  segmentCountMain : Nat
  segment0Blkaddr : Nat
  cpBlkaddr : Nat
  sitBlkaddr : Nat
  natBlkaddr : Nat
  ssaBlkaddr : Nat
  mainBlkaddr : Nat
  rootIno : Nat
  nodeIno : Nat
  metaIno : Nat
  cpPayload : Nat

namespace Config

variable (config : Config)

/-- `blk_size_bytes`. -/
def blkSizeBytes : Nat :=
  u32 (2 ^ u32 (logBase2 config.sectorSize + logBase2 config.sectorsPerBlk))

/-- `segment_size_bytes`. -/
def segmentSizeBytes : Nat := u32 (config.blkSizeBytes * blksPerSeg)

/-- `zone_size_bytes`. -/
def zoneSizeBytes : Nat :=
  u32 (config.blkSizeBytes * config.secsPerZone * config.segsPerSec * blksPerSeg)

/-- `zone_align_start_offset`. -/
def zoneAlignStartOffset : Nat :=
  let start := u32 (config.startSector * defaultSectorSize)
  sub32 (u32 (u32 (start + 2 * pageCacheSize + config.zoneSizeBytes - 1) / config.zoneSizeBytes *
    config.zoneSizeBytes)) start

/-- `segment_count`. -/
def segmentCount : Nat :=
  u32 ((config.totalSectors * defaultSectorSize + (2 ^ 64 - config.zoneAlignStartOffset)) % 2 ^ 64 /
    config.segmentSizeBytes)

end Config

/-- `F2FS_NUMBER_OF_CHECKPOINT_PACK`, the segments of the checkpoint packs. -/
def segmentCountCkpt : Nat := 2

/-- `segment_count_sit`. -/
def sitSegmentCount (segmentCount : Nat) : Nat :=
  u32 (segAlign (u32 (align segmentCount sitEntryPerBlock)) * 2)

/-- The bytes of the version bit map of a table of `segments` segments and their copies. -/
def versionBitmapBytes (segments : Nat) : Nat := u32 ((segments / 2) <<< 9) / 8

/-- `max_sit_bitmap_size`. -/
def sitBitmapRoom (sitSegments : Nat) : Nat := min (versionBitmapBytes sitSegments) maxSitBitmapSize

/-- Whether the SIT bit map gets a payload. -/
def needsPayload (sitSegments : Nat) : Bool :=
  decide (mkfsChecksumOffset - sizeofCheckpoint + 65 < sitBitmapRoom sitSegments)

/-- `cp_payload`. -/
def cpPayloadFor (sitSegments : Nat) : Nat :=
  if needsPayload sitSegments then (sitBitmapRoom sitSegments + pageCacheSize - 1) / pageCacheSize
  else 0

/-- `max_nat_segments`. -/
def maxNatSegments (sitSegments : Nat) : Nat :=
  let room := mkfsChecksumOffset - sizeofCheckpoint + 1
  let maxNatBitmapSize :=
    if needsPayload sitSegments then room else sub32 room (sitBitmapRoom sitSegments)
  u32 (maxNatBitmapSize * 8) >>> 9

/-- `segment_count_nat`. -/
def natSegmentCount (segmentCount sitSegments : Nat) : Nat :=
  let available := u32 (sub32 segmentCount (u32 (segmentCountCkpt + sitSegments)) * blksPerSeg)
  u32 (min (segAlign (u32 (align available natEntryPerBlock))) (maxNatSegments sitSegments) * 2)

/-- `segment_count_ssa`, which also fills the last zone before the main area. -/
def ssaSegmentCount (segsPerZone segmentCount sitSegments natSegments : Nat) : Nat :=
  let before := u32 (segmentCountCkpt + sitSegments + natSegments)
  let available := u32 (sub32 segmentCount before * blksPerSeg)
  let segments := segAlign (u32 (available / blksPerSeg + 1))
  let diff := u32 (before + segments) % segsPerZone
  if diff ≠ 0 then u32 (segments + (segsPerZone - diff)) else segments

/-- The superblock `f2fs_prepare_super_block` fills. -/
def Config.superBlock (config : Config) : SuperBlock :=
  let segment0 := u32 (config.zoneAlignStartOffset / config.blkSizeBytes)
  let segments := config.segmentCount
  let sit := sitSegmentCount segments
  let nat := natSegmentCount segments sit
  let ssa := ssaSegmentCount config.segsPerZone segments sit nat
  let sitBlkaddr := u32 (segment0 + segmentCountCkpt * blksPerSeg)
  let natBlkaddr := u32 (sitBlkaddr + sit * blksPerSeg)
  let ssaBlkaddr := u32 (natBlkaddr + nat * blksPerSeg)
  let sections := sub32 segments (u32 (segmentCountCkpt + sit + nat + ssa)) / config.segsPerSec
  { magic := f2fsSuperMagic
    logSectorsize := logBase2 config.sectorSize
    logSectorsPerBlock := logBase2 config.sectorsPerBlk
    logBlocksize := u32 (logBase2 config.sectorSize + logBase2 config.sectorsPerBlk)
    logBlocksPerSeg := logBase2 blksPerSeg
    segsPerSec := config.segsPerSec
    secsPerZone := config.secsPerZone
    blockCount := config.totalSectors >>> logBase2 config.sectorsPerBlk
    sectionCount := sections
    segmentCount := segments
    segmentCountCkpt := segmentCountCkpt
    segmentCountSit := sit
    segmentCountNat := nat
    segmentCountSsa := ssa
    segmentCountMain := u32 (sections * config.segsPerSec)
    segment0Blkaddr := segment0
    cpBlkaddr := segment0
    sitBlkaddr := sitBlkaddr
    natBlkaddr := natBlkaddr
    ssaBlkaddr := ssaBlkaddr
    mainBlkaddr := u32 (ssaBlkaddr + ssa * blksPerSeg)
    rootIno := 3
    nodeIno := 1
    metaIno := 2
    cpPayload := cpPayloadFor sit }

/-- `config.cur_seg`. -/
def Config.curSeg (config : Config) (totalZones : Nat) : CursegType → Nat :=
  let prevZone (segno : Nat) := sub32 segno config.segsPerZone
  let nextZone (segno : Nat) := u32 (segno + config.segsPerZone)
  if config.heap then
    let lastZone := u32 ((totalZones - 1) * config.segsPerZone)
    let hotNode := u32 (lastZone + (config.secsPerZone - 1) * config.segsPerSec)
    let warmNode := prevZone hotNode
    let coldNode := prevZone warmNode
    fun
    | .hotNode => hotNode
    | .warmNode => warmNode
    | .coldNode => coldNode
    | .hotData => prevZone coldNode
    | .coldData => 0
    | .warmData => nextZone 0
  else
    let warmNode := nextZone 0
    let coldNode := nextZone warmNode
    let hotData := nextZone coldNode
    let coldData := nextZone hotData
    fun
    | .hotNode => 0
    | .warmNode => warmNode
    | .coldNode => coldNode
    | .hotData => hotData
    | .coldData => coldData
    | .warmData => nextZone coldData

/-- `f2fs_prepare_super_block`, with `config.cur_seg`.  A zone of no bytes and a section of no
segments make it divide by zero. -/
def f2fsPrepareSuperBlock (config : Config) : Option (SuperBlock × (CursegType → Nat)) :=
  let sb := config.superBlock
  let totalZones := sb.segmentCountMain / config.segsPerZone
  if config.zoneSizeBytes = 0 ∨ config.segmentSizeBytes = 0 ∨ config.segsPerZone = 0 ∨
      config.segsPerSec = 0 then none
  else if sub32 sb.segmentCountMain 2 < config.reservedSegments then none
  else if totalZones ≤ 6 then none
  else some (sb, config.curSeg totalZones)

/-! ## Where the segments begin -/

/-- Rounding a start behind `low` bytes up to the next `zone` goes less than a zone further, also
when the sum wraps. -/
theorem roundUp_bounds {start low zone : Nat} (start_lt : start < 2 ^ 32) (zone_pos : 0 < zone)
    (words : low + zone < 2 ^ 32) :
    low ≤ sub32 (u32 (u32 (start + low + zone - 1) / zone * zone)) start ∧
      sub32 (u32 (u32 (start + low + zone - 1) / zone * zone)) start < low + zone := by
  unfold u32
  generalize rounded : (start + low + zone - 1) % 2 ^ 32 = sum
  have below : sum / zone * zone ≤ sum := Nat.div_mul_le_self _ _
  have above : sum < sum / zone * zone + zone := Nat.lt_div_mul_add zone_pos
  generalize sum / zone * zone = aligned at below above ⊢
  unfold sub32
  omega

namespace Config

/-- A volume whose sizes are words: its sectors are of a supported size, its zones are below
2 ^ 32 bytes and the device below 2 ^ 44, and the device has room for three zones and the tables. -/
structure Ordinary (config : Config) : Prop where
  sector : config.sectorSize ∈ [512, 1024, 2048, 4096]
  sectorsPerBlk : config.sectorsPerBlk = pageCacheSize / config.sectorSize
  zone : config.segsPerZone = config.segsPerSec * config.secsPerZone
  segsPerSec_pos : 0 < config.segsPerSec
  secsPerZone_pos : 0 < config.secsPerZone
  zone_le : config.segsPerZone ≤ 2046
  volume : config.totalSectors < 2 ^ 35
  room : (3 * config.segsPerZone + 17) * 4096 ≤ config.totalSectors

variable {config : Config}

namespace Ordinary

variable (ordinary : config.Ordinary)
include ordinary

theorem segsPerZone_pos : 0 < config.segsPerZone := by
  rw [ordinary.zone]
  exact Nat.mul_pos ordinary.segsPerSec_pos ordinary.secsPerZone_pos

/-- A sector and the sectors of a block make a block of 4096 bytes. -/
theorem logs : logBase2 config.sectorSize + logBase2 config.sectorsPerBlk = 12 ∧
    9 ≤ logBase2 config.sectorSize ∧ logBase2 config.sectorSize ≤ 12 := by
  have all : ∀ size ∈ [512, 1024, 2048, 4096],
      logBase2 size + logBase2 (pageCacheSize / size) = 12 ∧ 9 ≤ logBase2 size ∧
        logBase2 size ≤ 12 := by decide
  rw [ordinary.sectorsPerBlk]
  exact all _ ordinary.sector

theorem blkSizeBytes_eq : config.blkSizeBytes = 4096 := by
  rw [blkSizeBytes, ordinary.logs.1]
  rfl

theorem segmentSizeBytes_eq : config.segmentSizeBytes = 2 ^ 21 := by
  rw [segmentSizeBytes, ordinary.blkSizeBytes_eq]
  rfl

theorem zoneSizeBytes_eq : config.zoneSizeBytes = config.segsPerZone * 2 ^ 21 := by
  have small := ordinary.zone_le
  rw [zoneSizeBytes, ordinary.blkSizeBytes_eq, Nat.mul_assoc 4096, Nat.mul_comm config.secsPerZone,
    ← ordinary.zone]
  unfold blksPerSeg
  rw [u32_of_lt (by omega)]
  omega

/-- The first segment lies behind the superblocks, and less than a zone behind them. -/
theorem zoneAlignStartOffset_bounds : 2 * pageCacheSize ≤ config.zoneAlignStartOffset ∧
    config.zoneAlignStartOffset < 2 * pageCacheSize + config.segsPerZone * 2 ^ 21 := by
  have small := ordinary.zone_le
  have positive := ordinary.segsPerZone_pos
  have start_lt : u32 (config.startSector * defaultSectorSize) < 2 ^ 32 :=
    Nat.mod_lt _ (Nat.two_pow_pos 32)
  rw [zoneAlignStartOffset, ordinary.zoneSizeBytes_eq]
  exact roundUp_bounds start_lt (by omega) (by unfold pageCacheSize; omega)

/-- The number of segments, in the natural numbers. -/
theorem segmentCount_eq : config.segmentCount =
    (config.totalSectors * 512 - config.zoneAlignStartOffset) / 2 ^ 21 := by
  have offset := ordinary.zoneAlignStartOffset_bounds
  have small := ordinary.zone_le
  have volume := ordinary.volume
  have room := ordinary.room
  rw [segmentCount, ordinary.segmentSizeBytes_eq]
  unfold defaultSectorSize u32
  unfold pageCacheSize at offset
  omega

theorem segmentCount_bounds : 2 * config.segsPerZone + 16 ≤ config.segmentCount ∧
    config.segmentCount < 2 ^ 23 := by
  have offset := ordinary.zoneAlignStartOffset_bounds
  have volume := ordinary.volume
  have room := ordinary.room
  rw [ordinary.segmentCount_eq]
  unfold pageCacheSize at offset
  omega

/-- The segments end with the device. -/
theorem segments_inside : 2 ≤ config.zoneAlignStartOffset / 4096 ∧
    config.zoneAlignStartOffset / 4096 + config.segmentCount * blksPerSeg ≤
      config.totalSectors / 8 := by
  have offset := ordinary.zoneAlignStartOffset_bounds
  have room := ordinary.room
  have small := ordinary.zone_le
  rw [ordinary.segmentCount_eq]
  unfold blksPerSeg
  unfold pageCacheSize at offset
  omega

end Ordinary

end Config

/-! ## The tables -/

/-- A pair of SIT segments for every 55 segments of blocks. -/
theorem sitSegmentCount_eq {segmentCount : Nat} (small : segmentCount < 2 ^ 23) :
    sitSegmentCount segmentCount = 2 * ((segmentCount + 28159) / 28160) := by
  unfold sitSegmentCount segAlign align u32 blksPerSeg sitEntryPerBlock
  omega

theorem natSegmentCount_eq {segmentCount sitSegments : Nat} (small : segmentCount < 2 ^ 23)
    (room : segmentCountCkpt + sitSegments ≤ segmentCount) :
    natSegmentCount segmentCount sitSegments =
      2 * min (((segmentCount - segmentCountCkpt - sitSegments) + 454) / 455)
        (maxNatSegments sitSegments) := by
  have blocks : segAlign (u32 (align (u32 (sub32 segmentCount
      (u32 (segmentCountCkpt + sitSegments)) * blksPerSeg)) natEntryPerBlock)) =
        ((segmentCount - segmentCountCkpt - sitSegments) + 454) / 455 := by
    rw [@u32_of_lt (segmentCountCkpt + sitSegments) (by omega),
      sub32_of_le room (by omega), Nat.sub_sub]
    generalize rest_eq : segmentCount - (segmentCountCkpt + sitSegments) = rest
    have rest_lt : rest < 2 ^ 23 := by omega
    rw [@u32_of_lt (rest * blksPerSeg) (by unfold blksPerSeg; omega)]
    unfold segAlign align blksPerSeg natEntryPerBlock
    have blocks_lt : (rest * 512 + 455 - 1) / 455 < 2 ^ 24 := by omega
    rw [@u32_of_lt ((rest * 512 + 455 - 1) / 455) (by omega), u32_of_lt (by omega)]
    omega
  unfold natSegmentCount
  dsimp only
  rw [blocks, u32_of_lt (by omega)]
  omega

/-- The summary area has a block for every segment behind it, and ends with a zone. -/
theorem ssaSegmentCount_spec {segsPerZone segmentCount sitSegments natSegments : Nat}
    (zone_pos : 0 < segsPerZone) (zone_le : segsPerZone ≤ 2046) (small : segmentCount < 2 ^ 23)
    (room : segmentCountCkpt + sitSegments + natSegments ≤ segmentCount) :
    segmentCount - (segmentCountCkpt + sitSegments + natSegments) <
        ssaSegmentCount segsPerZone segmentCount sitSegments natSegments * blksPerSeg ∧
      ssaSegmentCount segsPerZone segmentCount sitSegments natSegments ≤
        (segmentCount - (segmentCountCkpt + sitSegments + natSegments)) / blksPerSeg + segsPerZone ∧
      (segmentCountCkpt + sitSegments + natSegments +
        ssaSegmentCount segsPerZone segmentCount sitSegments natSegments) % segsPerZone = 0 := by
  unfold ssaSegmentCount
  dsimp only
  generalize segmentCountCkpt + sitSegments + natSegments = before at room ⊢
  have word : u32 before = before := u32_of_lt (by omega)
  have segments : segAlign (u32 (u32 (sub32 segmentCount (u32 before) * blksPerSeg) / blksPerSeg +
      1)) = (segmentCount - before) / 512 + 1 := by
    rw [word, sub32_of_le room (by omega)]
    unfold segAlign u32 blksPerSeg
    omega
  rw [segments, word]
  generalize counted : (segmentCount - before) / 512 + 1 = count
  have count_le : count ≤ 2 ^ 14 + 1 := by omega
  rw [@u32_of_lt (before + count) (by omega)]
  have rest := Nat.mod_lt (before + count) zone_pos
  unfold blksPerSeg
  split
  · next unaligned =>
      rw [u32_of_lt (by omega)]
      refine ⟨by omega, by omega, ?_⟩
      have whole : before + (count + (segsPerZone - (before + count) % segsPerZone)) =
          segsPerZone * ((before + count) / segsPerZone + 1) := by
        have divided := Nat.div_add_mod (before + count) segsPerZone
        rw [Nat.mul_add, Nat.mul_one]
        omega
      rw [whole]
      exact Nat.mul_mod_right _ _
  · next aligned =>
      exact ⟨by omega, by omega, by omega⟩

/-! ## The layout -/

/-- The areas follow each other from the first segment to the end of the device, with room in the
tables for every segment. -/
structure Laid (config : Config) (sb : SuperBlock) : Prop where
  superblocks : 2 ≤ sb.segment0Blkaddr
  cp : sb.cpBlkaddr = sb.segment0Blkaddr
  sit : sb.sitBlkaddr = sb.cpBlkaddr + sb.segmentCountCkpt * blksPerSeg
  nat : sb.natBlkaddr = sb.sitBlkaddr + sb.segmentCountSit * blksPerSeg
  ssa : sb.ssaBlkaddr = sb.natBlkaddr + sb.segmentCountNat * blksPerSeg
  main : sb.mainBlkaddr = sb.ssaBlkaddr + sb.segmentCountSsa * blksPerSeg
  packs : sb.segmentCountCkpt = cpPacks
  total : sb.segmentCountCkpt + sb.segmentCountSit + sb.segmentCountNat + sb.segmentCountSsa +
    sb.segmentCountMain ≤ sb.segmentCount
  inside : sb.segment0Blkaddr + sb.segmentCount * blksPerSeg ≤ sb.blockCount
  words : sb.segment0Blkaddr + sb.segmentCount * blksPerSeg < 2 ^ 32
  sections : sb.segmentCountMain = sb.sectionCount * config.segsPerSec
  sitCopies : sb.segmentCountSit = 2 * (sb.segmentCountSit / 2)
  natCopies : sb.segmentCountNat = 2 * (sb.segmentCountNat / 2)
  sitCovers : sb.segmentCountMain ≤ sb.segmentCountSit / 2 * blksPerSeg * sitEntryPerBlock
  ssaCovers : sb.segmentCountMain ≤ sb.segmentCountSsa * blksPerSeg
  zones : (sb.segmentCountCkpt + sb.segmentCountSit + sb.segmentCountNat + sb.segmentCountSsa) %
    config.segsPerZone = 0

namespace Config.Ordinary

variable {config : Config}

/-- The tables leave at least a zone and the segments of the summary area. -/
theorem tables_room (ordinary : config.Ordinary) :
    2 + sitSegmentCount config.segmentCount +
      natSegmentCount config.segmentCount (sitSegmentCount config.segmentCount) +
      config.segmentCount / 512 + config.segsPerZone ≤ config.segmentCount ∧
    natSegmentCount config.segmentCount (sitSegmentCount config.segmentCount) % 2 = 0 := by
  obtain ⟨room, small⟩ := ordinary.segmentCount_bounds
  have sit := sitSegmentCount_eq small
  have fits : segmentCountCkpt + sitSegmentCount config.segmentCount ≤ config.segmentCount := by
    rw [sit]
    unfold segmentCountCkpt
    omega
  rw [natSegmentCount_eq small fits, sit]
  have capped := Nat.min_le_left ((config.segmentCount - segmentCountCkpt -
    2 * ((config.segmentCount + 28159) / 28160) + 454) / 455)
      (maxNatSegments (2 * ((config.segmentCount + 28159) / 28160)))
  generalize min _ (maxNatSegments _) = pairs at capped ⊢
  unfold segmentCountCkpt at capped
  omega

/-- The device has a block for every eight sectors of the least size. -/
theorem blockCount_ge (ordinary : config.Ordinary) :
    config.totalSectors / 8 ≤ config.superBlock.blockCount := by
  have few : logBase2 config.sectorsPerBlk ≤ 3 := by
    have all : ∀ size ∈ [512, 1024, 2048, 4096], logBase2 (pageCacheSize / size) ≤ 3 := by decide
    rw [ordinary.sectorsPerBlk]
    exact all _ ordinary.sector
  change _ ≤ config.totalSectors >>> logBase2 config.sectorsPerBlk
  rw [Nat.shiftRight_eq_div_pow]
  exact Nat.div_le_div_left (Nat.pow_le_pow_right (by decide) few) (Nat.two_pow_pos _)

/-- The superblock of an ordinary volume lays the areas out soundly. -/
theorem superBlock_laid (ordinary : config.Ordinary) : Laid config config.superBlock := by
  obtain ⟨room, small⟩ := ordinary.segmentCount_bounds
  obtain ⟨first, inside⟩ := ordinary.segments_inside
  obtain ⟨tables, natEven⟩ := ordinary.tables_room
  obtain ⟨covers, few, zones⟩ := ssaSegmentCount_spec ordinary.segsPerZone_pos ordinary.zone_le
    small (show segmentCountCkpt + sitSegmentCount config.segmentCount +
      natSegmentCount config.segmentCount (sitSegmentCount config.segmentCount) ≤
        config.segmentCount by unfold segmentCountCkpt; omega)
  have sitEq := sitSegmentCount_eq small
  have volume := ordinary.volume
  have blocks := ordinary.blockCount_ge
  have segment0 : config.superBlock.segment0Blkaddr = config.zoneAlignStartOffset / 4096 := by
    change u32 (config.zoneAlignStartOffset / config.blkSizeBytes) = _
    rw [ordinary.blkSizeBytes_eq, u32_of_lt (by omega)]
  have segments : config.superBlock.segmentCount = config.segmentCount := rfl
  have ckpt : config.superBlock.segmentCountCkpt = 2 := rfl
  have sit : config.superBlock.segmentCountSit = sitSegmentCount config.segmentCount := rfl
  have nat : config.superBlock.segmentCountNat =
    natSegmentCount config.segmentCount (sitSegmentCount config.segmentCount) := rfl
  have ssa : config.superBlock.segmentCountSsa = ssaSegmentCount config.segsPerZone
    config.segmentCount (sitSegmentCount config.segmentCount)
      (natSegmentCount config.segmentCount (sitSegmentCount config.segmentCount)) := rfl
  have sections : config.superBlock.sectionCount = sub32 config.segmentCount
      (u32 (2 + config.superBlock.segmentCountSit + config.superBlock.segmentCountNat +
        config.superBlock.segmentCountSsa)) / config.segsPerSec := rfl
  have mainCount : config.superBlock.segmentCountMain =
    u32 (config.superBlock.sectionCount * config.segsPerSec) := rfl
  have cpAddr : config.superBlock.cpBlkaddr = config.superBlock.segment0Blkaddr := rfl
  have sitAddr : config.superBlock.sitBlkaddr =
    u32 (config.superBlock.segment0Blkaddr + 2 * 512) := rfl
  have natAddr : config.superBlock.natBlkaddr =
    u32 (config.superBlock.sitBlkaddr + config.superBlock.segmentCountSit * 512) := rfl
  have ssaAddr : config.superBlock.ssaBlkaddr =
    u32 (config.superBlock.natBlkaddr + config.superBlock.segmentCountNat * 512) := rfl
  have mainAddr : config.superBlock.mainBlkaddr =
    u32 (config.superBlock.ssaBlkaddr + config.superBlock.segmentCountSsa * 512) := rfl
  generalize config.superBlock = sb at *
  rw [← sit] at sitEq tables natEven covers few zones nat ssa
  rw [← nat] at tables natEven covers few zones ssa
  rw [← ssa] at covers few zones
  unfold segmentCountCkpt at covers few zones
  unfold blksPerSeg at inside covers few
  have total : 2 + sb.segmentCountSit + sb.segmentCountNat + sb.segmentCountSsa ≤
    config.segmentCount := by omega
  rw [u32_of_lt (by omega), sub32_of_le total (by omega)] at sections
  have mainLe := Nat.div_mul_le_self (config.segmentCount -
    (2 + sb.segmentCountSit + sb.segmentCountNat + sb.segmentCountSsa)) config.segsPerSec
  rw [← sections] at mainLe
  rw [u32_of_lt (by omega)] at mainCount sitAddr
  rw [u32_of_lt (by omega)] at natAddr
  rw [u32_of_lt (by omega)] at ssaAddr
  rw [u32_of_lt (by omega)] at mainAddr
  exact
    { superblocks := by omega
      cp := cpAddr
      sit := by rw [sitAddr, cpAddr, ckpt]; rfl
      nat := natAddr
      ssa := ssaAddr
      main := mainAddr
      packs := ckpt
      total := by omega
      inside := by unfold blksPerSeg; omega
      words := by unfold blksPerSeg; omega
      sections := mainCount
      sitCopies := by omega
      natCopies := by omega
      sitCovers := by unfold blksPerSeg sitEntryPerBlock; omega
      ssaCovers := by unfold blksPerSeg; omega
      zones := by rw [ckpt]; exact zones }

end Config.Ordinary

/-! ## The first segments of the logs -/

/-- The zone of a log, counted from the first zone. -/
def logZone (heap : Bool) (totalZones : Nat) : CursegType → Nat
  | .hotNode => if heap then totalZones - 1 else 0
  | .warmNode => if heap then totalZones - 2 else 1
  | .coldNode => if heap then totalZones - 3 else 2
  | .hotData => if heap then totalZones - 4 else 3
  | .coldData => if heap then 0 else 4
  | .warmData => if heap then 1 else 5

/-- The section of a log in its zone. -/
def logSection (heap : Bool) (secsPerZone : Nat) : CursegType → Nat
  | .hotNode | .warmNode | .coldNode | .hotData => if heap then secsPerZone - 1 else 0
  | .coldData | .warmData => 0

theorem logZone_lt {heap : Bool} {totalZones : Nat} (enough : 6 < totalZones) (type : CursegType) :
    logZone heap totalZones type < totalZones := by
  cases type <;> cases heap <;> simp only [logZone, if_true, Bool.false_eq_true, if_false] <;> omega

theorem logZone_injective {heap : Bool} {totalZones : Nat} (enough : 6 < totalZones)
    {left right : CursegType}
    (same : logZone heap totalZones left = logZone heap totalZones right) : left = right := by
  cases left <;> cases right <;> first
    | rfl
    | cases heap <;> simp only [logZone, if_true, Bool.false_eq_true, if_false] at same <;> omega

theorem logSection_lt {heap : Bool} {secsPerZone : Nat} (positive : 0 < secsPerZone)
    (type : CursegType) : logSection heap secsPerZone type < secsPerZone := by
  cases type <;> cases heap <;>
    simp only [logSection, if_true, Bool.false_eq_true, if_false] <;> omega

/-- Each log starts with a section of its own zone. -/
theorem Config.curSeg_eq {config : Config} (ordinary : config.Ordinary) {totalZones : Nat}
    (enough : 6 < totalZones) (words : totalZones * config.segsPerZone < 2 ^ 32)
    (type : CursegType) :
    config.curSeg totalZones type = logZone config.heap totalZones type * config.segsPerZone +
      logSection config.heap config.secsPerZone type * config.segsPerSec := by
  have sectionLe : (config.secsPerZone - 1) * config.segsPerSec ≤ config.segsPerZone := by
    rw [ordinary.zone, Nat.mul_comm]
    exact Nat.mul_le_mul_left _ (Nat.sub_le _ _)
  obtain ⟨rest, rfl⟩ : ∃ rest, totalZones = rest + 7 := ⟨totalZones - 7, by omega⟩
  have scaled (count : Nat) : (rest + count) * config.segsPerZone =
    rest * config.segsPerZone + count * config.segsPerZone := Nat.add_mul _ _ _
  rw [scaled] at words
  unfold Config.curSeg
  cases heap : config.heap with
  | true =>
      have hot : u32 (u32 ((rest + 7 - 1) * config.segsPerZone) +
          (config.secsPerZone - 1) * config.segsPerSec) =
            (rest + 6) * config.segsPerZone + (config.secsPerZone - 1) * config.segsPerSec := by
        rw [show rest + 7 - 1 = rest + 6 from rfl, scaled,
          @u32_of_lt (rest * config.segsPerZone + 6 * config.segsPerZone) (by omega),
          u32_of_lt (by omega)]
      have back (count : Nat) (inside : count < 6) :
          sub32 ((rest + (count + 1)) * config.segsPerZone +
              (config.secsPerZone - 1) * config.segsPerSec) config.segsPerZone =
            (rest + count) * config.segsPerZone +
              (config.secsPerZone - 1) * config.segsPerSec := by
        have most : (count + 1) * config.segsPerZone ≤ 6 * config.segsPerZone :=
          Nat.mul_le_mul_right _ inside
        rw [scaled, scaled, Nat.add_mul, Nat.one_mul] at *
        rw [sub32_of_le (by omega) (by omega)]
        omega
      simp only [if_true, hot, back 5 (by decide), back 4 (by decide), back 3 (by decide)]
      cases type with
      | hotNode => rfl
      | warmNode => rfl
      | coldNode => rfl
      | hotData => rfl
      | coldData => simp [logZone, logSection]
      | warmData =>
          rw [Nat.zero_add, u32_of_lt (by omega)]
          simp [logZone, logSection]
  | false =>
      have next (count : Nat) (inside : count < 6) :
          u32 (count * config.segsPerZone + config.segsPerZone) =
            (count + 1) * config.segsPerZone := by
        have most : (count + 1) * config.segsPerZone ≤ 6 * config.segsPerZone :=
          Nat.mul_le_mul_right _ inside
        rw [Nat.add_mul, Nat.one_mul] at most ⊢
        exact u32_of_lt (by omega)
      have first := next 0 (by decide)
      rw [Nat.zero_mul] at first
      simp only [Bool.false_eq_true, if_false, first, next 1 (by decide), next 2 (by decide),
        next 3 (by decide), next 4 (by decide)]
      cases type <;> simp [logZone, logSection]

/-- The logs start with whole sections of the main area, each in a zone of its own. -/
structure LogsPlaced (config : Config) (sb : SuperBlock) (curSeg : CursegType → Nat) : Prop where
  inMain : ∀ type, curSeg type + config.segsPerSec ≤ sb.segmentCountMain
  section_start : ∀ type, curSeg type % config.segsPerSec = 0
  zones : ∀ left right,
    curSeg left / config.segsPerZone = curSeg right / config.segsPerZone → left = right

namespace Config.Ordinary

variable {config : Config}

theorem curSeg_placed (ordinary : config.Ordinary) {sb : SuperBlock} (laid : Laid config sb)
    (enough : 6 < sb.segmentCountMain / config.segsPerZone) :
    LogsPlaced config sb (config.curSeg (sb.segmentCountMain / config.segsPerZone)) := by
  have whole := Nat.div_mul_le_self sb.segmentCountMain config.segsPerZone
  have words : sb.segmentCountMain / config.segsPerZone * config.segsPerZone < 2 ^ 32 := by
    have total := laid.total
    have limit := laid.words
    unfold blksPerSeg at limit
    omega
  have place := config.curSeg_eq ordinary enough words
  have inZone (type : CursegType) :
      logSection config.heap config.secsPerZone type * config.segsPerSec + config.segsPerSec ≤
        config.segsPerZone := by
    rw [ordinary.zone, Nat.mul_comm config.segsPerSec, ← Nat.succ_mul]
    exact Nat.mul_le_mul_right _ (logSection_lt ordinary.secsPerZone_pos type)
  have positive := ordinary.segsPerSec_pos
  constructor
  · intro type
    have next : (logZone config.heap (sb.segmentCountMain / config.segsPerZone) type + 1) *
        config.segsPerZone ≤ sb.segmentCountMain / config.segsPerZone * config.segsPerZone :=
      Nat.mul_le_mul_right _ (logZone_lt enough type)
    have inside := inZone type
    rw [Nat.add_mul, Nat.one_mul] at next
    rw [place]
    omega
  · intro type
    rw [place, ordinary.zone, Nat.mul_comm config.segsPerSec, ← Nat.mul_assoc, ← Nat.add_mul]
    exact Nat.mul_mod_left _ _
  · intro left right same
    have zoneOf (type : CursegType) :
        config.curSeg (sb.segmentCountMain / config.segsPerZone) type / config.segsPerZone =
          logZone config.heap (sb.segmentCountMain / config.segsPerZone) type := by
      have inside := inZone type
      rw [place, Nat.add_comm, Nat.add_mul_div_right _ _ ordinary.segsPerZone_pos,
        Nat.div_eq_of_lt (by omega), Nat.zero_add]
    rw [zoneOf, zoneOf] at same
    exact logZone_injective enough same

end Config.Ordinary

/-- The logs have different segments. -/
theorem LogsPlaced.injective {config : Config} {sb : SuperBlock} {curSeg : CursegType → Nat}
    (placed : LogsPlaced config sb curSeg) {left right : CursegType}
    (same : curSeg left = curSeg right) : left = right :=
  placed.zones left right (by rw [same])

/-- A configuration from the options and a device with room for three zones is ordinary. -/
theorem configure_ordinary {options : MkfsOptions} {device : DeviceInfo} {config : Config}
    (configured : configure options device = some config)
    (sector : device.sectorSize ∈ [512, 1024, 2048, 4096]) (segsPerSec : 0 < options.segsPerSec)
    (secsPerZone : 0 < options.secsPerZone)
    (zone : options.segsPerSec * options.secsPerZone ≤ 2046) (volume : device.bytes < 2 ^ 44)
    (room : (3 * (options.segsPerSec * options.secsPerZone) + 17) * 4096 ≤ config.totalSectors) :
    config.Ordinary := by
  unfold configure at configured
  dsimp only at configured
  split at configured
  · cases configured
  · cases Option.some.inj configured
    have size : max defaultSectorSize device.sectorSize = device.sectorSize := by
      have all : ∀ size ∈ [512, 1024, 2048, 4096], max defaultSectorSize size = size := by decide
      exact all _ sector
    have least : 512 ≤ device.sectorSize := by
      rw [← size]
      exact Nat.le_max_left _ _
    have word := u32_of_lt (show options.segsPerSec * options.secsPerZone < 2 ^ 32 by omega)
    have available : device.bytes / device.sectorSize ≤ device.bytes / 512 :=
      Nat.div_le_div_left least (by decide)
    dsimp only at room
    rw [size] at room
    constructor
    · dsimp only
      rw [size]
      exact sector
    · rfl
    · exact word
    · exact segsPerSec
    · exact secsPerZone
    · dsimp only
      rw [word]
      exact zone
    · have chosen := chosenSectors_le options.totalSectors (device.bytes / device.sectorSize)
      dsimp only
      rw [size]
      omega
    · dsimp only
      rw [word, size]
      exact room

/-- What `f2fs_prepare_super_block` returns, and what it has checked. -/
theorem f2fsPrepareSuperBlock_eq {config : Config} {sb : SuperBlock} {curSeg : CursegType → Nat}
    (prepared : f2fsPrepareSuperBlock config = some (sb, curSeg)) :
    sb = config.superBlock ∧ curSeg = config.curSeg (sb.segmentCountMain / config.segsPerZone) ∧
      config.reservedSegments ≤ sub32 sb.segmentCountMain 2 ∧
      6 < sb.segmentCountMain / config.segsPerZone := by
  unfold f2fsPrepareSuperBlock at prepared
  dsimp only at prepared
  split at prepared
  · cases prepared
  · split at prepared
    · cases prepared
    · next reserved =>
        split at prepared
        · cases prepared
        · next enough =>
            obtain ⟨rfl, rfl⟩ := Prod.mk.inj (Option.some.inj prepared)
            exact ⟨rfl, rfl, Nat.le_of_not_lt reserved, Nat.lt_of_not_le enough⟩

/-- The reserved segments and two more are in the main area. -/
theorem reservedSegments_le {config : Config} {sb : SuperBlock} {curSeg : CursegType → Nat}
    (ordinary : config.Ordinary) (prepared : f2fsPrepareSuperBlock config = some (sb, curSeg)) :
    config.reservedSegments + 2 ≤ sb.segmentCountMain := by
  obtain ⟨rfl, rfl, reserved, zones⟩ := f2fsPrepareSuperBlock_eq prepared
  have many : 6 < config.superBlock.segmentCountMain := zones.trans_le (Nat.div_le_self _ _)
  have total := ordinary.superBlock_laid.total
  have limit := ordinary.superBlock_laid.words
  unfold blksPerSeg at limit
  rw [sub32_of_le (by omega) (by omega)] at reserved
  omega

/-- What `mkfs` makes of an ordinary configuration is laid out soundly, with the reserved segments
and two more in the main area. -/
theorem f2fsPrepareSuperBlock_laid {config : Config} {sb : SuperBlock} {curSeg : CursegType → Nat}
    (ordinary : config.Ordinary) (prepared : f2fsPrepareSuperBlock config = some (sb, curSeg)) :
    Laid config sb ∧ LogsPlaced config sb curSeg ∧
      config.reservedSegments + 2 ≤ sb.segmentCountMain := by
  have reserved := reservedSegments_le ordinary prepared
  obtain ⟨rfl, rfl, _, zones⟩ := f2fsPrepareSuperBlock_eq prepared
  have laid := ordinary.superBlock_laid
  exact ⟨laid, ordinary.curSeg_placed laid zones, reserved⟩

/-! ## The version bit maps -/

/-- The NAT has a segment, the version bit maps end before the checksum of the checkpoint block, and
the SIT bit map fits the payload when there is one. -/
structure BitmapsFit (sb : SuperBlock) : Prop where
  nat : 0 < sb.segmentCountNat
  block : (if sb.cpPayload = 0 then versionBitmapBytes sb.segmentCountSit else 0) +
    versionBitmapBytes sb.segmentCountNat ≤ mkfsChecksumOffset - (sizeofCheckpoint - 1)
  payload : sb.cpPayload ≠ 0 →
    versionBitmapBytes sb.segmentCountSit ≤ sb.cpPayload * pageCacheSize

theorem versionBitmapBytes_eq {pairs : Nat} (small : pairs < 2 ^ 23) :
    versionBitmapBytes (2 * pairs) = pairs * 64 := by
  unfold versionBitmapBytes u32
  rw [Nat.shiftLeft_eq]
  omega

theorem sitBitmapRoom_eq {pairs : Nat} (small : pairs < 2 ^ 23) :
    sitBitmapRoom (2 * pairs) = min (pairs * 64) 19065 := by
  rw [sitBitmapRoom, versionBitmapBytes_eq small]
  rfl

theorem needsPayload_iff {pairs : Nat} (small : pairs < 2 ^ 23) :
    needsPayload (2 * pairs) = true ↔ 62 ≤ pairs := by
  rw [needsPayload, sitBitmapRoom_eq small, decide_eq_true_iff]
  unfold mkfsChecksumOffset sizeofCheckpoint
  omega

/-- The limit on the NAT leaves the SIT bit map its room, but for 61 pairs of SIT segments, where the
room wraps. -/
theorem maxNatSegments_eq {pairs : Nat} (small : pairs < 2 ^ 23) :
    maxNatSegments (2 * pairs) =
      if 62 ≤ pairs then 60 else if pairs = 61 then 8388607 else 60 - pairs := by
  unfold maxNatSegments
  simp only [needsPayload_iff small, sitBitmapRoom_eq small]
  split
  · rfl
  · next unpaid =>
      have room : min (pairs * 64) 19065 = pairs * 64 := by omega
      rw [room, Nat.shiftRight_eq_div_pow]
      unfold sub32 u32 mkfsChecksumOffset sizeofCheckpoint
      split <;> omega

/-- The version bit maps fit unless there are between 1661441 and 1717760 segments: with 60 pairs of
SIT segments no room is left for the NAT, and with 61 the room wraps. -/
theorem bitmapsFit_superBlock_iff {config : Config} (ordinary : config.Ordinary) :
    BitmapsFit config.superBlock ↔
      ¬(1661440 < config.segmentCount ∧ config.segmentCount ≤ 1717760) := by
  obtain ⟨room, small⟩ := ordinary.segmentCount_bounds
  have laid := ordinary.superBlock_laid
  have sit : config.superBlock.segmentCountSit = 2 * ((config.segmentCount + 28159) / 28160) :=
    sitSegmentCount_eq small
  have fits : segmentCountCkpt + 2 * ((config.segmentCount + 28159) / 28160) ≤
      config.segmentCount := by
    unfold segmentCountCkpt
    omega
  have nat : config.superBlock.segmentCountNat =
      natSegmentCount config.segmentCount (2 * ((config.segmentCount + 28159) / 28160)) := by
    rw [← sit]
    rfl
  have payload : config.superBlock.cpPayload =
      cpPayloadFor (2 * ((config.segmentCount + 28159) / 28160)) := by
    rw [← sit]
    rfl
  rw [natSegmentCount_eq small fits] at nat
  generalize segments_eq : config.segmentCount = segments at *
  generalize sit_eq : (segments + 28159) / 28160 = pairs at *
  have few : pairs < 2 ^ 23 := by omega
  rw [maxNatSegments_eq few] at nat
  unfold cpPayloadFor at payload
  simp only [needsPayload_iff few, sitBitmapRoom_eq few] at payload
  unfold segmentCountCkpt at nat
  generalize natPairs_eq : min ((segments - 2 - 2 * pairs + 454) / 455)
    (if 62 ≤ pairs then 60 else if pairs = 61 then 8388607 else 60 - pairs) = natPairs at nat
  have natFew : natPairs < 2 ^ 23 := by omega
  have fit_iff : BitmapsFit config.superBlock ↔ 0 < natPairs ∧
      (if config.superBlock.cpPayload = 0 then pairs * 64 else 0) + natPairs * 64 ≤ 3900 ∧
        (config.superBlock.cpPayload ≠ 0 → pairs * 64 ≤ config.superBlock.cpPayload * 4096) := by
    rw [← versionBitmapBytes_eq few, ← versionBitmapBytes_eq natFew, ← sit, ← nat]
    have some : 0 < natPairs ↔ 0 < config.superBlock.segmentCountNat := by omega
    rw [some]
    exact ⟨fun fit => ⟨fit.nat, fit.block, fit.payload⟩, fun fit => ⟨fit.1, fit.2.1, fit.2.2⟩⟩
  rw [fit_iff, payload]
  unfold pageCacheSize
  rcases Nat.lt_or_ge pairs 62 with unpaid | paid
  · rw [if_neg (Nat.not_le.mpr unpaid)] at natPairs_eq ⊢
    rw [if_pos rfl]
    split at natPairs_eq <;> omega
  · rw [if_pos paid] at natPairs_eq ⊢
    rw [if_neg (by omega)]
    omega

/-- The version bit maps of a new volume fit the checkpoint, and its NAT has a segment, exactly when
it does not have between 1661441 and 1717760 segments. -/
theorem f2fsPrepareSuperBlock_bitmapsFit_iff {config : Config} {sb : SuperBlock}
    {curSeg : CursegType → Nat} (ordinary : config.Ordinary)
    (prepared : f2fsPrepareSuperBlock config = some (sb, curSeg)) :
    BitmapsFit sb ↔ ¬(1661440 < sb.segmentCount ∧ sb.segmentCount ≤ 1717760) := by
  obtain ⟨rfl, _⟩ := f2fsPrepareSuperBlock_eq prepared
  exact bitmapsFit_superBlock_iff ordinary

/-! ## A volume of a gibibyte -/

/-- The default configuration for a device of 1 GiB. -/
def gibibyteConfig : Config where
  sectorSize := 512
  sectorsPerBlk := 8
  totalSectors := 2097152
  startSector := 0
  reservedSegments := 48
  overprovision := 5
  segsPerSec := 1
  secsPerZone := 1
  segsPerZone := 1
  heap := true

theorem configure_gibibyte :
    configure ⟨5, 1, 1, true, 0⟩ ⟨512, 2 ^ 30, 0⟩ = some gibibyteConfig := by rfl

theorem gibibyteConfig_ordinary : gibibyteConfig.Ordinary :=
  configure_ordinary configure_gibibyte (by decide) (by decide) (by decide) (by decide) (by decide)
    (by decide)

theorem f2fsPrepareSuperBlock_gibibyte : f2fsPrepareSuperBlock gibibyteConfig =
    some (gibibyteConfig.superBlock, gibibyteConfig.curSeg 502) := by
  have main : gibibyteConfig.superBlock.segmentCountMain = 502 := by rfl
  unfold f2fsPrepareSuperBlock
  dsimp only
  rw [if_neg (by decide), main, if_neg (by decide), if_neg (by decide)]
  rfl

theorem f2fsPrepareSuperBlock_laid_gibibyte :
    Laid gibibyteConfig gibibyteConfig.superBlock ∧
      LogsPlaced gibibyteConfig gibibyteConfig.superBlock (gibibyteConfig.curSeg 502) ∧
      gibibyteConfig.reservedSegments + 2 ≤ gibibyteConfig.superBlock.segmentCountMain :=
  f2fsPrepareSuperBlock_laid gibibyteConfig_ordinary f2fsPrepareSuperBlock_gibibyte

theorem f2fsPrepareSuperBlock_bitmapsFit_gibibyte : BitmapsFit gibibyteConfig.superBlock ↔
    ¬(1661440 < gibibyteConfig.superBlock.segmentCount ∧
      gibibyteConfig.superBlock.segmentCount ≤ 1717760) :=
  f2fsPrepareSuperBlock_bitmapsFit_iff gibibyteConfig_ordinary f2fsPrepareSuperBlock_gibibyte

end F2fs
end StorageStack
