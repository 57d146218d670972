import StorageStack.F2fs.Format

/-!
# A formatted device

The areas a format writes lie apart, so each block of them is found on the device afterwards; only the
first NAT block is written twice.  What lay on the device before does not matter for any of them.
-/

namespace StorageStack

namespace Device

variable {β : Type*} {device : Device β} {writes left right : List (Nat × β)} {address : Nat} {block : β}

/-- Every write of the sequence goes to a block from `low` on and before `high`. -/
def Within (writes : List (Nat × β)) (low high : Nat) : Prop :=
  ∀ write ∈ writes, low ≤ write.1 ∧ write.1 < high

theorem Within.append {low high : Nat} (first : Within left low high)
    (second : Within right low high) : Within (left ++ right) low high := by
  intro write member
  rcases List.mem_append.mp member with inLeft | inRight
  · exact first write inLeft
  · exact second write inRight

theorem Within.mono {low high low' high' : Nat} (within : Within writes low high) (lower : low' ≤ low)
    (upper : high ≤ high') : Within writes low' high' := by
  intro write member
  have bounds := within write member
  omega

theorem Within.notMem {low high : Nat} (within : Within writes low high)
    (outside : address < low ∨ high ≤ address) : address ∉ writes.map Prod.fst := by
  intro member
  obtain ⟨write, listed, rfl⟩ := List.mem_map.mp member
  have bounds := within write listed
  omega

theorem within_consecutive (start : Nat) (blocks : List β) :
    Within (consecutive start blocks) start (start + blocks.length) := by
  rintro ⟨place, stored⟩ member
  obtain ⟨index, found, rfl⟩ := mem_consecutive.mp member
  have inside := (List.getElem?_eq_some_iff.mp found).1
  dsimp only
  omega

/-- Later writes elsewhere leave a block alone. -/
theorem persist_append_of_within {low high : Nat} (within : Within right low high)
    (outside : address < low ∨ high ≤ address) :
    device.persist (left ++ right) address = device.persist left address := by
  rw [persist_append, persist_of_notMem (within.notMem outside)]

end Device

namespace F2fs
namespace NewVolume

variable (volume : NewVolume)

/-! ## Addresses -/

theorem cpPayload_le : volume.sb.cpPayload ≤ 5 := by
  have room : sitBitmapRoom volume.config.superBlock.segmentCountSit ≤ maxSitBitmapSize :=
    Nat.min_le_right _ _
  have capped : maxSitBitmapSize = 19065 := rfl
  rw [volume.sb_eq]
  change cpPayloadFor volume.config.superBlock.segmentCountSit ≤ 5
  unfold cpPayloadFor pageCacheSize
  split <;> omega

theorem curSeg_lt (type : CursegType) : volume.curSeg type < volume.sb.segmentCountMain := by
  have inMain := volume.placed.inMain type
  have positive := volume.ordinary.segsPerSec_pos
  omega

theorem logBlkaddr_eq (type : CursegType) : volume.logBlkaddr type =
    volume.sb.mainBlkaddr + volume.curSeg type * blksPerSeg := by
  have limit := volume.words
  have inMain := Nat.mul_le_mul_right blksPerSeg (Nat.succ_le_of_lt (volume.curSeg_lt type))
  rw [Nat.succ_mul] at inMain
  rw [Nat.add_mul] at limit
  rw [logBlkaddr, @u32_of_lt (_ * _) (by omega), u32_of_lt (by rw [volume.mainBlkaddr_eq]; omega)]

/-- The first segment begins before the last zone a word of 32 bits can address. -/
theorem segment0Blkaddr_le : (volume.sb.segment0Blkaddr + blksPerSeg) * 4096 < 2 ^ 32 := by
  have offset := volume.ordinary.zoneAlignStartOffset_bounds
  have small := volume.ordinary.zone_le
  have first : volume.sb.segment0Blkaddr = u32 (volume.config.zoneAlignStartOffset / 4096) := by
    rw [volume.sb_eq, ← volume.ordinary.blkSizeBytes_eq]
    rfl
  unfold pageCacheSize at offset
  rw [first, u32_of_lt (by omega)]
  unfold blksPerSeg
  omega

theorem secondPackBlkaddr_eq :
    volume.secondPackBlkaddr = volume.sb.segment0Blkaddr + blksPerSeg := by
  rw [secondPackBlkaddr, u32_of_lt volume.segment0Blkaddr_le]
  exact Nat.mul_div_cancel _ (by decide)

/-! ## Where each part writes -/

theorem sitBlkaddr_eq : volume.sb.sitBlkaddr = volume.sb.segment0Blkaddr + 2 * blksPerSeg := by
  rw [volume.laid.sit, volume.laid.cp, volume.segmentCountCkpt_eq]

/-- The blocks of a pair of tables. -/
theorem pairs_le {count : Nat} (even : count = 2 * (count / 2)) :
    count / 2 * blksPerSeg ≤ count * blksPerSeg :=
  Nat.mul_le_mul_right _ (by omega)

theorem within_initSitArea :
    Device.Within volume.initSitArea volume.sb.sitBlkaddr volume.sb.natBlkaddr := by
  have fits := pairs_le volume.laid.sitCopies
  have next := volume.laid.nat
  refine (Device.within_consecutive _ _).mono (Nat.le_refl _) ?_
  rw [List.length_replicate]
  omega

theorem within_initNatArea :
    Device.Within volume.initNatArea volume.sb.natBlkaddr volume.sb.ssaBlkaddr := by
  intro write member
  obtain ⟨index, inside, written⟩ := List.mem_flatMap.mp member
  have within := Device.within_consecutive _ _ write written
  have last : (2 * index + 1) * blksPerSeg ≤ volume.sb.segmentCountNat * blksPerSeg := by
    have few := List.mem_range.mp inside
    exact Nat.mul_le_mul_right _ (by omega)
  rw [List.length_replicate] at within
  rw [Nat.add_mul, Nat.one_mul] at last
  have next := volume.laid.ssa
  omega

theorem within_updateNatRoot :
    Device.Within volume.updateNatRoot volume.sb.natBlkaddr (volume.sb.natBlkaddr + 1) := by
  intro write member
  obtain rfl := List.mem_singleton.mp member
  exact ⟨Nat.le_refl _, Nat.lt_succ_self _⟩

theorem within_firstPack (image : RawCheckpoint → Page) :
    Device.Within (volume.firstPack image) volume.sb.segment0Blkaddr
      (volume.sb.segment0Blkaddr + blksPerSeg) := by
  have payload := volume.cpPayload_le
  refine (Device.within_consecutive _ _).mono (Nat.le_refl _) ?_
  simp only [List.length_append, List.length_replicate, List.length_cons, List.length_nil]
  unfold blksPerSeg
  omega

theorem within_secondPack (image : RawCheckpoint → Page) :
    Device.Within (volume.secondPack image) (volume.sb.segment0Blkaddr + blksPerSeg)
      volume.sb.sitBlkaddr := by
  have payload := volume.cpPayload_le
  have next := volume.sitBlkaddr_eq
  have start := volume.secondPackBlkaddr_eq
  refine Device.Within.append ?_ ?_
  · refine (Device.within_consecutive _ _).mono (by omega) ?_
    simp only [List.length_append, List.length_replicate, List.length_cons, List.length_nil]
    unfold blksPerSeg at *
    omega
  · intro write member
    obtain rfl := List.mem_singleton.mp member
    have total : (volume.checkpoint 0).cpPackTotalBlockCount = 6 + volume.sb.cpPayload := rfl
    dsimp only
    rw [total]
    unfold blksPerSeg at *
    omega

theorem within_writeSuperBlock (superPage : Page) :
    Device.Within (writeSuperBlock superPage) 0 2 :=
  (Device.within_consecutive _ _).mono (Nat.le_refl _) (Nat.le_refl _)

/-! ## What is on the device -/

variable (image : RawCheckpoint → Page) (superPage : Page) (host : Host)
  (before : Device MetaBlock)

/-- The device after the format. -/
def device : Device MetaBlock := before.persist (volume.formatDevice image superPage host)

/-- The order of the areas. -/
structure AreasApart : Prop where
  superblocks : 2 ≤ volume.sb.segment0Blkaddr
  sit : volume.sb.sitBlkaddr = volume.sb.segment0Blkaddr + 2 * blksPerSeg
  nat : volume.sb.sitBlkaddr ≤ volume.sb.natBlkaddr
  ssa : volume.sb.natBlkaddr + 2 * blksPerSeg ≤ volume.sb.ssaBlkaddr
  main : volume.sb.ssaBlkaddr ≤ volume.sb.mainBlkaddr

theorem areasApart : volume.AreasApart where
  superblocks := volume.laid.superblocks
  sit := volume.sitBlkaddr_eq
  nat := by rw [volume.laid.nat]; exact Nat.le_add_right _ _
  ssa := by
    have some := volume.bitmaps.nat
    have copies := volume.laid.natCopies
    have pair : 2 * blksPerSeg ≤ volume.sb.segmentCountNat * blksPerSeg :=
      Nat.mul_le_mul_right _ (by omega)
    rw [volume.laid.ssa]
    exact Nat.add_le_add_left pair _
  main := by rw [volume.laid.main]; exact Nat.le_add_right _ _

variable {address : Nat}

/-- The packs and the superblock are written last. -/
theorem device_of_sit_le (behind : volume.sb.sitBlkaddr ≤ address) :
    volume.device image superPage host before address =
      before.persist (volume.initSitArea ++ volume.initNatArea ++ volume.writeRootInode host ++
        volume.updateNatRoot ++ volume.addDefaultDentryRoot) address := by
  have apart := volume.areasApart
  have first := apart.superblocks
  have sit := apart.sit
  unfold device formatDevice
  rw [Device.persist_append_of_within (within_writeSuperBlock superPage) (.inr (by omega)),
    Device.persist_append_of_within (volume.within_secondPack image) (.inr behind),
    Device.persist_append_of_within (volume.within_firstPack image) (.inr (by omega))]

/-- The first two blocks of different logs lie apart. -/
theorem logBlkaddr_apart {left right : CursegType} (different : left ≠ right) :
    volume.logBlkaddr left + 2 ≤ volume.logBlkaddr right ∨
      volume.logBlkaddr right + 2 ≤ volume.logBlkaddr left := by
  have segments : volume.curSeg left ≠ volume.curSeg right :=
    fun same => different (volume.placed.injective same)
  rw [volume.logBlkaddr_eq, volume.logBlkaddr_eq]
  unfold blksPerSeg
  omega

/-- The first block of a log behind the tables. -/
theorem main_le_logBlkaddr (type : CursegType) :
    volume.sb.mainBlkaddr ≤ volume.logBlkaddr type := by
  rw [volume.logBlkaddr_eq]
  exact Nat.le_add_right _ _

end NewVolume
end F2fs
end StorageStack
