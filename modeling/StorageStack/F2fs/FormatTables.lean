import StorageStack.F2fs.FormatMount

/-!
# The tables of a new volume

What the segment manager and the node manager read from a new volume: the journals come from the
compacted page of the pack, the rest of the tables is empty.
-/

namespace StorageStack

namespace Page

/-- The little-endian word of 64 bits at an offset. -/
def le64 (page : Page) (offset : Nat) : Nat :=
  (page.le32 offset).toNat + 2 ^ 32 * (page.le32 (offset + 4)).toNat

/-- A word depends on its two bytes only. -/
theorem le16_congr {left right : Page} {offset : Nat}
    (same : ∀ index < 2, left (offset + index) = right (offset + index)) :
    left.le16 offset = right.le16 offset := by
  have first := same 0 (by decide)
  rw [Nat.add_zero] at first
  rw [le16, le16, first, same 1 (by decide)]

theorem putByte_of_ne {page : Page} {offset index : Nat} {byte : UInt8} (apart : index ≠ offset) :
    page.putByte offset byte index = page index := Function.update_of_ne apart _ _

end Page

namespace F2fs

/-! ## The layout of a summary block -/

/-- The entries of a NAT block. -/
def MetaBlock.natEntries : MetaBlock → Nat → RawNat
  | .nat entries => entries
  | .sit _ | .pack _ => fun _ => NewVolume.zeroNat

/-! ## What a mount reads -/

variable (image : RawCheckpoint → Page) (sup : MetaSuper) (device : Device MetaBlock)

namespace NewVolume

variable (volume : NewVolume)

section Mounted

variable (options : MountOptions) (image : RawCheckpoint → Page) (superPage : Page) (host : Host)
  (before : Device MetaBlock)

/-- Whether the first block of a log is valid. -/
def firstValid : CursegType → Bool
  | .hotNode | .hotData => true
  | .warmNode | .coldNode | .warmData | .coldData => false

end Mounted

end NewVolume

end F2fs
end StorageStack
