import StorageStack.F2fs.FormatDevice

/-!
# Mounting a new volume

The first checkpoint pack of a format is the pack `do_checkpoint` writes at the unmount of a file
system with an empty root directory.  A mount chooses it, and finds tables the invariants of the
running file system start from.
-/

namespace StorageStack

namespace F2fs
namespace NewVolume

variable (volume : NewVolume) (options : MountOptions)

/-- `sit_blocks`. -/
theorem sitBlocks_eq : (volume.sbi options).sitBlocks = volume.sb.segmentCountSit / 2 * 512 := by
  change (volume.sb.segmentCountSit / 2) <<< volume.sb.logBlocksPerSeg = _
  rw [volume.logBlocksPerSeg_eq, Nat.shiftLeft_eq]

/-- The areas are where the checkpoint and the tables expect them. -/
theorem laidOut : (volume.sup options).LaidOut := by
  have apart := volume.areasApart
  have log := volume.logBlocksPerSeg_eq
  have laid := volume.laid
  have blocks : (volume.sbi options).sitBlocks = volume.sb.segmentCountSit / 2 * blksPerSeg :=
    volume.sitBlocks_eq options
  constructor
  · change volume.sb.cpBlkaddr + 2 * 2 ^ volume.sb.logBlocksPerSeg ≤ volume.sb.sitBlkaddr
    rw [log, laid.cp, apart.sit]
    exact Nat.le_refl _
  · change volume.sb.sitBlkaddr + 2 * (volume.sbi options).sitBlocks ≤ volume.sb.natBlkaddr
    have copies := laid.sitCopies
    rw [blocks, laid.nat, ← Nat.mul_assoc, ← copies]
  · intro segno inMain
    have inMain' : segno < volume.sb.segmentCountMain := inMain
    have covers := laid.sitCovers
    change segno / sitEntryPerBlock < (volume.sbi options).sitBlocks
    rw [blocks]
    exact Nat.div_lt_of_lt_mul (by rw [Nat.mul_comm]; omega)

/-! ## The pack of an unmount -/

section Mounted

variable (image : RawCheckpoint → Page) (superPage : Page) (host : Host)
  (before : Device MetaBlock)

/-- The new volume as a reader of packs sees it. -/
def view : Device Block := packView (volume.device image superPage host before)

/-- The checkpoint a mount loads. -/
def loaded : ValidCheckpoint :=
  loadCheckpoint image (volume.sup options).cp (volume.view image superPage host before) false
    (sealCheckpoint image (volume.checkpoint 1))

end Mounted

end NewVolume
end F2fs
end StorageStack
