import StorageStack.F2fs.NatTable
import StorageStack.F2fs.PackReadBack
import StorageStack.F2fs.SitRoundTrip

/-!
# Histories of checkpoints

`write_checkpoint` writes the new copies of NAT and SIT blocks and then the blocks of a pack.  A mount
chooses one of the two packs by their checksums and versions.
-/

namespace StorageStack
namespace F2fs

/-- `ver_after`. -/
def verAfter (a b : BitVec 64) : Bool := decide (0 < (a - b).toInt)

/-! ## The areas of the device -/

/-- The fields of the superblock which place the checkpoint packs, the SIT and the NAT. -/
structure MetaSuper where
  sbi : Sbi
  cpBlkaddr : Nat
  cpPayload : Nat
  ssaBlkaddr : Nat
  natBlkaddr : Nat
  natSegs : Nat

namespace MetaSuper

variable (sup : MetaSuper)

/-- The fields for the checkpoint packs. -/
def cp : CpSuper := ⟨sup.sbi, sup.cpBlkaddr, sup.cpPayload, sup.ssaBlkaddr⟩

/-- The fields for the NAT. -/
def nat : NatSuper := ⟨sup.sbi, sup.natBlkaddr, sup.natSegs⟩

/-- The areas follow each other: two segments of packs, the two copies of the SIT, the NAT. -/
structure LaidOut : Prop where
  sit : sup.cpBlkaddr + 2 * sup.sbi.blocksPerSeg ≤ sup.sbi.sitBaseAddr
  nat : sup.sbi.sitBaseAddr + 2 * sup.sbi.sitBlocks ≤ sup.natBlkaddr
  sitFits : sup.sbi.SitFits

end MetaSuper

/-- A block of one of the areas. -/
inductive MetaBlock where
  | pack (block : Block)
  | nat (entries : Nat → RawNat)
  | sit (entries : Nat → RawSit)

/-- A block as a reader of packs sees it: one which belongs to no pack fails its checksum. -/
def MetaBlock.packBlock : MetaBlock → Block
  | .pack block => block
  | .nat _ | .sit _ => .bytes Page.zero

/-- The device as a reader of packs sees it. -/
def packView (device : Device MetaBlock) : Device Block := fun address => (device address).packBlock

/-- The writes of a pack as writes to the device. -/
def packedWrites (writes : List (Nat × Block)) : List (Nat × MetaBlock) :=
  writes.map fun write => (write.1, .pack write.2)

/-! ## Choosing a pack -/

/-- The places of the two packs. -/
def CpSuper.packAddr (sup : CpSuper) (second : Bool) : Nat :=
  if second then sup.cpBlkaddr + sup.sbi.blocksPerSeg else sup.cpBlkaddr

/-- What `get_valid_checkpoint` loads: the place of the pack and the buffer `ckpt`. -/
structure ValidCheckpoint where
  second : Bool
  block : CpBlock
  /-- The blocks of the buffer behind the first one, by their number from 1. -/
  payload : Nat → Page

/-- Load the buffer from one of the packs. -/
def loadCheckpoint (image : RawCheckpoint → Page) (sup : CpSuper) (device : Device Block)
    (second : Bool) (block : CpBlock) : ValidCheckpoint where
  second := second
  block := block
  payload number :=
    if number ≤ sup.cpPayload then (device (sup.packAddr second + number)).page image else Page.zero

/-- `get_valid_checkpoint`. -/
def getValidCheckpoint (image : RawCheckpoint → Page) (sup : CpSuper) (device : Device Block) :
    Option ValidCheckpoint :=
  let cp1 := validateCheckpoint image device (sup.packAddr false)
  let cp2 := validateCheckpoint image device (sup.packAddr true)
  match cp1, cp2 with
  | some cp1, some cp2 =>
      if verAfter cp2.1 cp1.1 then some (loadCheckpoint image sup device true cp2.2)
      else some (loadCheckpoint image sup device false cp1.2)
  | some cp1, none => some (loadCheckpoint image sup device false cp1.2)
  | none, some cp2 => some (loadCheckpoint image sup device true cp2.2)
  | none, none => none

/-- `f2fs_test_bit` in the SIT version bit map of the buffer, which is in the payload when there is
one. -/
def readSitBitmap (sup : CpSuper) (valid : ValidCheckpoint) : BitMap := fun offset =>
  if 0 < sup.cpPayload then
    (valid.payload (offset / 8 / pageCacheSize + 1) (offset / 8 % pageCacheSize)).toNat.testBit
      (7 - offset % 8)
  else valid.block.raw.sitBitmap offset

/-! ## Writing a checkpoint -/

/-- What `write_checkpoint` finds in memory, and what it does not determine itself: the memory there
is for free node numbers, the contents of the pages the page cache gives it, and the NAT and SIT pages
the device has taken before the pack, in their order. -/
structure CpCall (sup : MetaSuper) where
  nm : NmInfo
  segments : State
  /-- What `do_checkpoint` reads, with the version before the checkpoint. -/
  cp : CpState sup.cp
  cpc : CpControl
  room : Nat → Bool
  stale : Nat → Page
  metaWrites : List (Nat × MetaBlock)

/-- What `write_checkpoint` leaves. -/
structure CpWritten (sup : MetaSuper) where
  nm : NmInfo
  segments : State
  /-- What `do_checkpoint` has read. -/
  cp : CpState sup.cp
  pack : List (Nat × Block)

/-- What `do_checkpoint` reads after the version has been increased and the tables flushed. -/
def CpCall.flushed {sup : MetaSuper} (call : CpCall sup) (nm : NmInfo) (segments : State) :
    CpState sup.cp :=
  { call.cp with
    ckpt := { call.cp.ckpt with checkpointVer := call.cp.ckpt.checkpointVer + 1 }
    natBitmap := nm.store.natBitmap
    sitBitmap := segments.sit.sitBitmap }

/-- `write_checkpoint` up to the end of its writes. -/
def checkpointWrites (image : RawCheckpoint → Page) (sup : MetaSuper) (call : CpCall sup) :
    Option (CpWritten sup) :=
  (flushNatEntries sup.nat call.room call.nm).bind fun nm =>
    (flushSitEntries sup.sbi call.cpc call.segments).bind fun (segments, _) =>
      let cp := call.flushed nm segments
      (doCheckpoint image call.stale sup.cp call.cpc.reason cp).map fun pack =>
        ⟨nm, segments, cp, pack⟩

/-- `write_checkpoint`. -/
def writeCheckpoint (image : RawCheckpoint → Page) (sup : MetaSuper) (call : CpCall sup) :
    Option (CpWritten sup) :=
  (checkpointWrites image sup call).bind fun written =>
    (clearPrefreeSegments sup.sbi written.segments).map fun segments =>
      { written with segments := segments }

/-- All blocks the device takes in a checkpoint, in their order. -/
def CpWritten.writes {sup : MetaSuper} (written : CpWritten sup) (call : CpCall sup) :
    List (Nat × MetaBlock) :=
  call.metaWrites ++ packedWrites written.pack

/-- The pages written before the pack are NAT and SIT pages which the flushes have changed. -/
def SyncsMeta {sup : MetaSuper} (call : CpCall sup) (nm : NmInfo) (segments : State) : Prop :=
  ∀ write ∈ call.metaWrites,
    (∃ block second, write = (sup.nat.natAddr block second,
        .nat (nm.store.natPages (sup.nat.natAddr block second))) ∧
      nm.store.natPages (sup.nat.natAddr block second) ≠
        call.nm.store.natPages (sup.nat.natAddr block second)) ∨
    ∃ offset < sup.sbi.sitBlocks, ∃ second, write = (sup.sbi.sitAddr offset second,
        .sit (segments.sitPages (sup.sbi.sitAddr offset second))) ∧
      segments.sitPages (sup.sbi.sitAddr offset second) ≠
        call.segments.sitPages (sup.sbi.sitAddr offset second)

/-! ## Histories -/

/-- What lasts from one checkpoint to the next: the areas of the device, the version and the version
bit maps in memory, and the size of the SIT version bit map. -/
structure CpWorld where
  device : Device MetaBlock
  version : BitVec 64
  sitBytes : Nat
  natBitmap : BitMap
  sitBitmap : BitMap

/-- What `write_checkpoint` relies on: the tables in memory are those of the last checkpoint with the
changes made since, and no more orphans are listed than have been reserved. -/
structure CpAdmitted (sup : MetaSuper) (world : CpWorld) (call : CpCall sup) : Prop where
  version : call.cp.ckpt.checkpointVer = world.version
  sitBytes : call.cp.ckpt.sitVerBitmapBytesize = world.sitBytes
  natBitmap : call.nm.store.natBitmap = world.natBitmap
  sitBitmap : call.segments.sit.sitBitmap = world.sitBitmap
  nat : NatSound sup.nat call.nm
  sit : SitRecorded sup.sbi call.segments
  listed : call.cp.orphans.length ≤ call.cp.nOrphans
  limited : call.cp.nOrphans ≤ sup.cp.maxOrphans

/-- The number of blocks of the new pack. -/
def CpCall.packBlocks {sup : MetaSuper} (call : CpCall sup) : Nat :=
  cpPacks + sup.cpPayload + npagesForSummaryFlush sup.cp call.cp +
    getOrphanBlocks call.cp.nOrphans + nodeSumBlocks call.cpc.reason

/-- The new pack fits its segment, the orphans listed fill the blocks reserved for them, and no block
with the new version lies where the last block of the pack will go. -/
structure CpRegular (image : RawCheckpoint → Page) (sup : MetaSuper) (world : CpWorld)
    (call : CpCall sup) : Prop where
  fits : call.packBlocks ≤ sup.sbi.blocksPerSeg
  filled : getOrphanBlocks call.cp.orphans.length = getOrphanBlocks call.cp.nOrphans
  fresh : ∀ block, packView world.device
      (startCpAddr sup.cp (world.version + 1) + call.packBlocks - 1) = .checkpoint block →
    block.crcValid image = true → block.raw.checkpointVer ≠ world.version + 1

/-- After a checkpoint. -/
def CpWorld.after {sup : MetaSuper} (world : CpWorld) (call : CpCall sup)
    (written : CpWritten sup) : CpWorld where
  device := world.device.persist (written.writes call)
  version := world.version + 1
  sitBytes := world.sitBytes
  natBitmap := written.nm.store.natBitmap
  sitBitmap := written.segments.sit.sitBitmap

/-- A history of successful checkpoints with regular packs. -/
inductive CpRun (image : RawCheckpoint → Page) (sup : MetaSuper) :
    CpWorld → List (CpCall sup) → CpWorld → Prop where
  | nil (world : CpWorld) : CpRun image sup world [] world
  | cons {world last : CpWorld} {call : CpCall sup} {calls : List (CpCall sup)}
      {written : CpWritten sup} (admitted : CpAdmitted sup world call)
      (regular : CpRegular image sup world call)
      (wrote : writeCheckpoint image sup call = some written)
      (synced : SyncsMeta call written.nm written.segments)
      (rest : CpRun image sup (world.after call written) calls last) :
      CpRun image sup world (call :: calls) last

/-- A checkpoint block in one of the two places is the first of a pack in its segment. -/
def HeadsFit (image : RawCheckpoint → Page) (sup : CpSuper) (device : Device Block) : Prop :=
  ∀ second block, device (sup.packAddr second) = .checkpoint block → block.crcValid image = true →
    1 + sup.cpPayload < block.raw.cpPackTotalBlockCount ∧
      block.raw.cpPackTotalBlockCount ≤ sup.sbi.blocksPerSeg

/-- The pack a mount chooses, and what it says about the tables. -/
structure Selected (image : RawCheckpoint → Page) (sup : MetaSuper) (world : CpWorld)
    (valid : ValidCheckpoint) : Prop where
  chosen : getValidCheckpoint image sup.cp (packView world.device) = some valid
  version : valid.block.raw.checkpointVer = world.version
  place : sup.cp.packAddr valid.second = startCpAddr sup.cp world.version
  natBitmap : valid.block.raw.natBitmap = world.natBitmap
  sitBitmap : ∀ offset < sup.sbi.sitBlocks, readSitBitmap sup.cp valid offset = world.sitBitmap offset

/-- A volume whose last checkpoint has been loaded: its pack is at the place of its version, and the
payload has room for the SIT version bit map. -/
structure CpMounted (image : RawCheckpoint → Page) (sup : MetaSuper) (world : CpWorld) : Prop where
  selected : ∃ valid, Selected image sup world valid
  heads : HeadsFit image sup.cp (packView world.device)
  payload : 0 < sup.cpPayload →
    sup.sbi.sitBlocks ≤ 8 * world.sitBytes ∧ world.sitBytes ≤ sup.cpPayload * pageCacheSize

/-! ## Crashes -/

/-- The device after a power failure in the middle of a checkpoint. -/
def crashed {sup : MetaSuper} (world : CpWorld) (call : CpCall sup) (written : CpWritten sup)
    (count : Nat) : Device MetaBlock :=
  world.device.persist ((written.writes call).take count)

/-- After a crash the mount finds the previous checkpoint with its tables, unless the last block of the
new pack has been written: then it finds the new one with all its blocks. -/
structure CrashSafe (image : RawCheckpoint → Page) (sup : MetaSuper) (world : CpWorld)
    (call : CpCall sup) (written : CpWritten sup) (valid : ValidCheckpoint) (count : Nat) :
    Prop where
  previous : count < (written.writes call).length →
    getValidCheckpoint image sup.cp (packView (crashed world call written count)) = some valid
  new : (written.writes call).length ≤ count → ∃ new : ValidCheckpoint,
    getValidCheckpoint image sup.cp (packView (crashed world call written count)) = some new ∧
      new.block.raw.checkpointVer = world.version + 1 ∧
      sup.cp.packAddr new.second = startCpAddr sup.cp (world.version + 1)
  complete : (written.writes call).length ≤ count → ∀ index < call.packBlocks, ∃ block,
    (startCpAddr sup.cp (world.version + 1) + index, block) ∈ written.pack ∧
      crashed world call written count (startCpAddr sup.cp (world.version + 1) + index) = .pack block
  apart : ∀ write ∈ written.pack, write.1 < sup.cp.packAddr valid.second ∨
    sup.cp.packAddr valid.second + sup.sbi.blocksPerSeg ≤ write.1
  intact : ∀ index < valid.block.raw.cpPackTotalBlockCount,
    crashed world call written count (sup.cp.packAddr valid.second + index) =
      world.device (sup.cp.packAddr valid.second + index)
  nat : ∀ block, crashed world call written count
      (sup.nat.natAddr block (valid.block.raw.natBitmap block)) =
    world.device (sup.nat.natAddr block (valid.block.raw.natBitmap block))
  sit : ∀ segno < sup.sbi.mainSegments, crashed world call written count
      (currentSitAddr sup.sbi (readSitBitmap sup.cp valid) segno) =
    world.device (currentSitAddr sup.sbi (readSitBitmap sup.cp valid) segno)

end F2fs
end StorageStack
