import Mathlib.Tactic

/-!
# Segments, sections and block addresses of F2FS

The macros of `segment.h` that convert between block addresses, segment numbers and offsets, over the
values a mount fixes once.  Addresses and segment numbers are 32-bit words; their subtractions wrap.
-/

namespace StorageStack
namespace F2fs

/-- `NEW_ADDR`, the address of a reserved block which is not allocated yet. -/
def newAddr : Nat := 2 ^ 32 - 1

/-- `NULL_ADDR`. -/
def nullAddr : Nat := 0

/-- `PAGE_CACHE_SIZE` and `F2FS_BLKSIZE`. -/
def pageCacheSize : Nat := 4096

/-- `NULL_SEGNO`. -/
def nullSegno : Nat := 2 ^ 32 - 1

/-- `SIT_VBLOCKS_SHIFT`. -/
def sitVblocksShift : Nat := 10

/-- `SIT_ENTRY_PER_BLOCK`. -/
def sitEntryPerBlock : Nat := 55

/-- `SIT_JOURNAL_ENTRIES`. -/
def sitJournalEntries : Nat := 6

/-- Subtraction of 32-bit words. -/
def sub32 (left right : Nat) : Nat := (left + (2 ^ 32 - right % 2 ^ 32)) % 2 ^ 32

theorem sub32_of_le {left right : Nat} (ordered : right ≤ left) (word : left < 2 ^ 32) :
    sub32 left right = left - right := by
  unfold sub32
  omega

/-- The values of `f2fs_sb_info` and `f2fs_sm_info` that a mount fixes, with what `mkfs` guarantees
about them. -/
structure Sbi where
  /-- `seg0_blkaddr`. -/
  seg0Blkaddr : Nat
  /-- `start_segno`, the logical number of the first main-area segment. -/
  startSegno : Nat
  /-- `log_blocks_per_seg`. -/
  logBlocksPerSeg : Nat
  /-- `segs_per_sec`. -/
  segsPerSec : Nat
  /-- `secs_per_zone`. -/
  secsPerZone : Nat
  /-- `total_sections`, which is `MAIN_SECS`. -/
  totalSections : Nat
  /-- `main_segments`, which is `MAIN_SEGS`. -/
  mainSegments : Nat
  /-- `reserved_segments`. -/
  reservedSegments : Nat
  /-- `sit_base_addr`. -/
  sitBaseAddr : Nat
  /-- `sit_blocks`. -/
  sitBlocks : Nat
  /-- `max_discards`. -/
  maxDiscards : Nat
  /-- `max_victim_search`. -/
  maxVictimSearch : Nat
  /-- The mount option `NOHEAP`. -/
  noheap : Bool
  /-- The mount option `DISCARD`. -/
  discard : Bool
  /-- Whether the code is built with `F2FS_DA_MAP`. -/
  f2fsDaMap : Bool
  /-- The blocks of a segment fill whole words of its `SIT_VBLOCK_MAP_SIZE` byte bit maps. -/
  log_bounds : 6 ≤ logBlocksPerSeg ∧ logBlocksPerSeg ≤ 9
  segsPerSec_pos : 0 < segsPerSec
  secsPerZone_pos : 0 < secsPerZone
  main_eq : mainSegments = totalSections * segsPerSec
  /-- The superblock lies before segment 0. -/
  seg0_pos : 0 < seg0Blkaddr
  /-- Every address of the main area is below `NEW_ADDR`. -/
  addresses_fit :
    seg0Blkaddr + (startSegno + mainSegments) * 2 ^ logBlocksPerSeg < 2 ^ 32

namespace Sbi

variable (sbi : Sbi)

/-- `blocks_per_seg`. -/
def blocksPerSeg : Nat := 2 ^ sbi.logBlocksPerSeg

/-- `START_BLOCK`. -/
def startBlock (segno : Nat) : Nat :=
  sbi.seg0Blkaddr + (segno + sbi.startSegno) * 2 ^ sbi.logBlocksPerSeg

/-- `GET_SEGOFF_FROM_SEG0`. -/
def getSegoffFromSeg0 (blkaddr : Nat) : Nat := sub32 blkaddr sbi.seg0Blkaddr

/-- `GET_SEGNO_FROM_SEG0`. -/
def getSegnoFromSeg0 (blkaddr : Nat) : Nat :=
  sbi.getSegoffFromSeg0 blkaddr >>> sbi.logBlocksPerSeg

/-- `GET_BLKOFF_FROM_SEG0`. -/
def getBlkoffFromSeg0 (blkaddr : Nat) : Nat :=
  sbi.getSegoffFromSeg0 blkaddr &&& (sbi.blocksPerSeg - 1)

/-- `GET_SEGNO`. -/
def getSegno (blkaddr : Nat) : Nat :=
  if blkaddr = nullAddr ∨ blkaddr = newAddr then nullSegno
  else sub32 (sbi.getSegnoFromSeg0 blkaddr) sbi.startSegno

/-- `GET_SECNO`. -/
def getSecno (segno : Nat) : Nat := segno / sbi.segsPerSec

/-- `GET_ZONENO_FROM_SEGNO`. -/
def getZonenoFromSegno (segno : Nat) : Nat := segno / sbi.segsPerSec / sbi.secsPerZone

theorem blocksPerSeg_pos : 0 < sbi.blocksPerSeg := Nat.two_pow_pos _

theorem blocksPerSeg_le : sbi.blocksPerSeg ≤ 512 :=
  Nat.pow_le_pow_right (by decide) sbi.log_bounds.2

theorem getBlkoffFromSeg0_lt (blkaddr : Nat) :
    sbi.getBlkoffFromSeg0 blkaddr < sbi.blocksPerSeg := by
  rw [getBlkoffFromSeg0, blocksPerSeg, Nat.and_two_pow_sub_one_eq_mod]
  exact Nat.mod_lt _ (Nat.two_pow_pos _)

theorem mainSegments_lt_nullSegno : sbi.mainSegments < nullSegno := by
  have fit := sbi.addresses_fit
  have positive := sbi.seg0_pos
  have scaled : sbi.startSegno + sbi.mainSegments ≤
      (sbi.startSegno + sbi.mainSegments) * 2 ^ sbi.logBlocksPerSeg :=
    Nat.le_mul_of_pos_right _ (Nat.two_pow_pos _)
  unfold nullSegno
  omega

variable {sbi}

/-- The bounds every address of the main area satisfies. -/
theorem address_bounds {segno offset : Nat} (inMain : segno < sbi.mainSegments)
    (inSegment : offset < sbi.blocksPerSeg) :
    sbi.seg0Blkaddr ≤ sbi.startBlock segno + offset ∧
      sbi.startBlock segno + offset < 2 ^ 32 - 1 ∧ 0 < sbi.startBlock segno + offset := by
  have fit := sbi.addresses_fit
  have positive := sbi.seg0_pos
  have next : (segno + sbi.startSegno + 1) * 2 ^ sbi.logBlocksPerSeg ≤
      (sbi.startSegno + sbi.mainSegments) * 2 ^ sbi.logBlocksPerSeg :=
    Nat.mul_le_mul_right _ (by omega)
  rw [Nat.add_mul, Nat.one_mul] at next
  unfold startBlock blocksPerSeg at *
  omega

theorem getSegoffFromSeg0_address {segno offset : Nat} (inMain : segno < sbi.mainSegments)
    (inSegment : offset < sbi.blocksPerSeg) :
    sbi.getSegoffFromSeg0 (sbi.startBlock segno + offset) =
      (segno + sbi.startSegno) * 2 ^ sbi.logBlocksPerSeg + offset := by
  obtain ⟨lower, upper, _⟩ := address_bounds inMain inSegment
  rw [getSegoffFromSeg0, sub32_of_le lower (by omega), startBlock]
  omega

theorem getSegno_address {segno offset : Nat} (inMain : segno < sbi.mainSegments)
    (inSegment : offset < sbi.blocksPerSeg) :
    sbi.getSegno (sbi.startBlock segno + offset) = segno := by
  obtain ⟨_, upper, positive⟩ := address_bounds inMain inSegment
  have small := sbi.mainSegments_lt_nullSegno
  have fit := sbi.addresses_fit
  have scaled : sbi.startSegno + sbi.mainSegments ≤
      (sbi.startSegno + sbi.mainSegments) * 2 ^ sbi.logBlocksPerSeg :=
    Nat.le_mul_of_pos_right _ (Nat.two_pow_pos _)
  have notSpecial : ¬ (sbi.startBlock segno + offset = nullAddr ∨
      sbi.startBlock segno + offset = newAddr) := by
    unfold nullAddr newAddr
    omega
  have below : offset < 2 ^ sbi.logBlocksPerSeg := inSegment
  have quotient : sbi.getSegnoFromSeg0 (sbi.startBlock segno + offset) =
      segno + sbi.startSegno := by
    rw [getSegnoFromSeg0, getSegoffFromSeg0_address inMain inSegment, Nat.shiftRight_eq_div_pow,
      Nat.add_comm, Nat.add_mul_div_right _ _ (Nat.two_pow_pos _), Nat.div_eq_of_lt below,
      Nat.zero_add]
  rw [getSegno, if_neg notSpecial, quotient, sub32_of_le (by omega) (by omega)]
  omega

theorem getBlkoff_address {segno offset : Nat} (inMain : segno < sbi.mainSegments)
    (inSegment : offset < sbi.blocksPerSeg) :
    sbi.getBlkoffFromSeg0 (sbi.startBlock segno + offset) = offset := by
  have below : offset < 2 ^ sbi.logBlocksPerSeg := inSegment
  rw [getBlkoffFromSeg0, getSegoffFromSeg0_address inMain inSegment, blocksPerSeg,
    Nat.and_two_pow_sub_one_eq_mod, Nat.mul_add_mod_self_right, Nat.mod_eq_of_lt below]

theorem secno_lt {segno : Nat} (inMain : segno < sbi.mainSegments) :
    segno / sbi.segsPerSec < sbi.totalSections := by
  rw [Nat.div_lt_iff_lt_mul sbi.segsPerSec_pos, ← sbi.main_eq]
  exact inMain

theorem segno_lt {secno index : Nat} (inMain : secno < sbi.totalSections)
    (inSection : index < sbi.segsPerSec) :
    secno * sbi.segsPerSec + index < sbi.mainSegments := by
  have next : (secno + 1) * sbi.segsPerSec ≤ sbi.totalSections * sbi.segsPerSec :=
    Nat.mul_le_mul_right _ inMain
  rw [sbi.main_eq]
  rw [Nat.add_mul, Nat.one_mul] at next
  omega

end Sbi
end F2fs
end StorageStack
