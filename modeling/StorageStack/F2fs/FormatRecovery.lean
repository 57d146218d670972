import StorageStack.F2fs.FormatRoot
import StorageStack.F2fs.FsyncChain

/-!
# Roll-forward recovery on a new volume

A format overwrites the start of the warm node log, so that the recovery of a mount stops there.
But the log's cursor stands behind the two blocks it overwrites, and the recovery starts at the
cursor, on a block of the device's earlier contents.
-/

namespace StorageStack
namespace F2fs

/-! ## What the chain lists -/

namespace ChainDisk

variable {disk : ChainDisk} {answers : Nat → FindAnswer} {ino : Nat}

/-- The inode is on the list. -/
def Recovery.Lists (state : Recovery) (ino : Nat) : Prop := ∃ entry ∈ state.head, entry.ino = ino

/-- The state a visit leaves, with an error or without. -/
def visitState : Except Recovery Recovery → Recovery
  | .ok state => state
  | .error state => state

/-- A change of one entry that keeps its inode keeps the list of inodes. -/
theorem Recovery.Lists.modify {state : Recovery} (lists : state.Lists ino) (index : Nat)
    {change : FsyncInodeEntry → FsyncInodeEntry} (kept : ∀ entry, (change entry).ino = entry.ino) :
    Recovery.Lists { state with head := state.head.modify index change } ino := by
  obtain ⟨entry, member, rfl⟩ := lists
  obtain ⟨place, found⟩ := List.mem_iff_getElem?.mp member
  by_cases here : index = place
  · refine ⟨change entry, List.mem_iff_getElem?.mpr ⟨place, ?_⟩, kept entry⟩
    rw [List.getElem?_modify, found]
    simp [here]
  · refine ⟨entry, List.mem_iff_getElem?.mpr ⟨place, ?_⟩, rfl⟩
    rw [List.getElem?_modify, found]
    simp [here]

/-- `find_fsync_dnodes` takes no inode off its list. -/
theorem lists_findVisit {state : Recovery} (lists : state.Lists ino) (round blkaddr : Nat) :
    (visitState (disk.findVisit answers round blkaddr state)).Lists ino := by
  unfold findVisit
  dsimp only
  split
  · exact lists
  split
  · exact lists.modify _ fun entry => rfl
  split
  · exact lists
  split
  · exact lists
  split
  · obtain ⟨entry, member, same⟩ := lists
    exact ⟨entry, List.mem_append_left _ member, same⟩
  · exact lists
  · exact lists

theorem lists_scan {fuel round start : Nat} {state : Recovery} {result : Scan}
    (lists : state.Lists ino)
    (scanned : disk.scan (disk.findVisit answers) fuel round start state = some result) :
    result.result.Lists ino := by
  induction fuel generalizing round start state result with
  | zero => cases scanned
  | succ fuel induction =>
      have visited := @lists_findVisit disk answers ino state lists round start
      rw [scan] at scanned
      split at scanned
      · cases scanned
        exact lists
      split at scanned
      · cases scanned
        exact lists
      split at scanned
      · next failed equation =>
          cases scanned
          rw [equation] at visited
          exact visited
      · next after equation =>
          rw [equation] at visited
          obtain ⟨rest, found, rfl⟩ := Option.map_eq_some_iff.mp scanned
          have listed : rest.result.Lists ino := induction visited found
          exact listed

/-- A scan stops at a block of another version. -/
theorem findFsyncDnodes_of_version {start : Nat} (inside : disk.InMain start)
    (version : (disk.block start).cpVer ≠ disk.cpVer) (fuel : Nat) :
    disk.findFsyncDnodes answers (fuel + 1) start = some ⟨[start], ⟨[], none⟩⟩ := by
  rw [findFsyncDnodes, scan, if_neg (not_not.mpr inside), if_pos version]

/-- A marked block of this version at the start is listed. -/
theorem lists_findFsyncDnodes {start fuel : Nat} {result : Scan} (inside : disk.InMain start)
    (version : (disk.block start).cpVer = disk.cpVer)
    (marked : (disk.block start).isFsyncDnode = true)
    (good : answers 0 = ⟨none, true, none⟩)
    (scanned : disk.findFsyncDnodes answers fuel start = some result) :
    result.result.Lists (disk.block start).ino := by
  cases fuel with
  | zero => cases scanned
  | succ fuel =>
      have visit : disk.findVisit answers 0 start ⟨[], none⟩ =
          .ok ⟨[FsyncInodeEntry.mark ⟨(disk.block start).ino, false, 0, 0, 0⟩ (disk.block start)
            start], none⟩ := by
        unfold findVisit
        simp [marked, good]
      rw [findFsyncDnodes, scan, if_neg (not_not.mpr inside), if_neg (not_not.mpr version),
        visit] at scanned
      obtain ⟨rest, found, rfl⟩ := Option.map_eq_some_iff.mp scanned
      have listed : rest.result.Lists (disk.block start).ino :=
        lists_scan ⟨_, List.mem_singleton_self _, rfl⟩ found
      exact listed

end ChainDisk

/-- What roll-forward recovery reads in the footer of a block. -/
def dnodeBlockOf (page : Page) : DnodeBlock where
  cpVer := page.le64 (nodeFooterNid + 12)
  nextBlkaddr := (page.le32 (nodeFooterNid + 20)).toNat
  ino := (page.le32 (nodeFooterNid + 4)).toNat
  isInode := page.le32 nodeFooterNid == page.le32 (nodeFooterNid + 4)
  isFsyncDnode := (page.le32 (nodeFooterNid + 8)).toNat.testBit 1
  isDentDnode := (page.le32 (nodeFooterNid + 8)).toNat.testBit 2

/-- A byte of a footer of bytes 255 is not of the version of any checkpoint. -/
theorem cpVer_onesPage : (dnodeBlockOf NewVolume.onesPage).cpVer = 2 ^ 64 - 1 := by rfl

namespace NewVolume

variable (volume : NewVolume)

/-! ## The scan of a new volume -/

section Mounted

variable (image : RawCheckpoint → Page) (superPage : Page) (host : Host)
  (before : Device MetaBlock)

/-- What the recovery of a mount reads. -/
def chainDisk : ChainDisk where
  block address := dnodeBlockOf ((volume.view image superPage host before address).page image)
  mainBlkaddr := volume.sb.mainBlkaddr
  maxBlkaddr := volume.sb.segment0Blkaddr + volume.sb.segmentCount <<< volume.sb.logBlocksPerSeg
  cpVer := (volume.checkpoint 1).checkpointVer.toNat

/-- `NEXT_FREE_BLKADDR` of the warm node log. -/
def rollForwardStart : Nat := volume.logBlkaddr .warmNode + curBlkoff .warmNode

/-- The blocks of a log lie in the main area. -/
theorem inMain_log {type : CursegType} {offset : Nat} (inside : offset < blksPerSeg) :
    (volume.chainDisk image superPage host before).InMain (volume.logBlkaddr type + offset) := by
  have total := volume.laid.total
  have log := Nat.succ_le_of_lt (volume.curSeg_lt type)
  have segments : volume.metaSegments + volume.sb.segmentCountMain ≤ volume.sb.segmentCount := total
  have ends := Nat.mul_le_mul_right blksPerSeg
    (show volume.metaSegments + (volume.curSeg type + 1) ≤ volume.sb.segmentCount by omega)
  rw [Nat.add_mul, Nat.add_mul, Nat.one_mul] at ends
  constructor
  · change volume.sb.mainBlkaddr ≤ _
    exact (volume.main_le_logBlkaddr type).trans (Nat.le_add_right _ _)
  · change _ < volume.sb.segment0Blkaddr + volume.sb.segmentCount <<< volume.sb.logBlocksPerSeg
    rw [volume.logBlocksPerSeg_eq, Nat.shiftLeft_eq, volume.logBlkaddr_eq, volume.mainBlkaddr_eq]
    unfold blksPerSeg at inside ends ⊢
    omega

/-- The first two blocks of the warm node log are overwritten. -/
theorem device_warmNode {offset : Nat} (inside : offset < 2) :
    volume.device image superPage host before (volume.logBlkaddr .warmNode + offset) =
      bytesBlock onesPage := by
  have apart := volume.areasApart
  have main := apart.main
  have ssa := apart.ssa
  have nat := apart.nat
  have place := volume.main_le_logBlkaddr .warmNode
  have data := @logBlkaddr_apart volume .warmNode .hotData (by decide)
  unfold blksPerSeg at ssa
  rw [volume.device_of_sit_le image superPage host before (by omega),
    Device.persist_append_of_within (show Device.Within volume.addDefaultDentryRoot
      (volume.logBlkaddr .hotData) (volume.logBlkaddr .hotData + 2) from
        Device.within_consecutive _ _) (by omega),
    Device.persist_append_of_within volume.within_updateNatRoot (.inr (by omega)),
    writeRootInode, ← List.append_assoc, Device.persist_append]
  refine Device.persist_of_mem (Device.ordered_consecutive _ _)
    (Device.mem_consecutive.mpr ⟨offset, ?_, rfl⟩)
  interval_cases offset <;> rfl

/-- Of the main area a format writes two blocks of three logs only. -/
theorem device_of_outside_logs {address : Nat} (inMain : volume.sb.mainBlkaddr ≤ address)
    (outside : ∀ type ∈ [CursegType.hotNode, .warmNode, .hotData],
      address < volume.logBlkaddr type ∨ volume.logBlkaddr type + 2 ≤ address) :
    volume.device image superPage host before address = before address := by
  have apart := volume.areasApart
  have main := apart.main
  have ssa := apart.ssa
  have nat := apart.nat
  unfold blksPerSeg at ssa
  have two (type : CursegType) (first second : MetaBlock) : Device.Within
      (Device.consecutive (volume.logBlkaddr type) [first, second]) (volume.logBlkaddr type)
        (volume.logBlkaddr type + 2) := Device.within_consecutive _ _
  rw [volume.device_of_sit_le image superPage host before (by omega), addDefaultDentryRoot,
    Device.persist_append_of_within (two .hotData _ _) (outside _ (by simp)),
    Device.persist_append_of_within volume.within_updateNatRoot (.inr (by omega)), writeRootInode,
    ← List.append_assoc, Device.persist_append_of_within (two .warmNode _ _) (outside _ (by simp)),
    Device.persist_append_of_within (two .hotNode _ _) (outside _ (by simp)),
    Device.persist_append_of_within volume.within_initNatArea (.inr (by omega))]
  exact Device.persist_of_notMem (volume.within_initSitArea.notMem (.inr (by omega)))

/-- The block at the cursor of the warm node log is not written. -/
theorem device_rollForwardStart :
    volume.device image superPage host before volume.rollForwardStart =
      before volume.rollForwardStart := by
  have start : volume.rollForwardStart = volume.logBlkaddr .warmNode + 2 := rfl
  have place := volume.main_le_logBlkaddr .warmNode
  refine volume.device_of_outside_logs image superPage host before (by omega) ?_
  intro type member
  by_cases same : type = .warmNode
  · subst same
    exact .inr (Nat.le_of_eq start.symm)
  · have segments : volume.curSeg type ≠ volume.curSeg .warmNode :=
      fun equal => same (volume.placed.injective equal)
    rw [start, volume.logBlkaddr_eq, volume.logBlkaddr_eq]
    unfold blksPerSeg
    omega

/-- The block of the earlier contents where recovery starts. -/
def staleBlock : DnodeBlock :=
  dnodeBlockOf ((packView before volume.rollForwardStart).page image)

theorem block_rollForwardStart :
    (volume.chainDisk image superPage host before).block volume.rollForwardStart =
      volume.staleBlock image before := by
  have same := volume.device_rollForwardStart image superPage host before
  unfold staleBlock
  change dnodeBlockOf ((packView (volume.device image superPage host before)
    volume.rollForwardStart).page image) = _
  unfold packView
  rw [same]

/-- The blocks a format overwrites stop every recovery, but recovery starts behind them: it stops
there when the device had no block of version 1, and takes up a stale node with a mark of
`fsync`. -/
theorem findFsyncDnodes_chainDisk (answers : Nat → ChainDisk.FindAnswer) (fuel : Nat) :
    (∀ offset < 2, (volume.chainDisk image superPage host before).findFsyncDnodes answers (fuel + 1)
        (volume.logBlkaddr .warmNode + offset) =
      some ⟨[volume.logBlkaddr .warmNode + offset], ⟨[], none⟩⟩) ∧
    ((volume.staleBlock image before).cpVer ≠ 1 →
      (volume.chainDisk image superPage host before).findFsyncDnodes answers (fuel + 1)
          volume.rollForwardStart = some ⟨[volume.rollForwardStart], ⟨[], none⟩⟩) ∧
    ((volume.staleBlock image before).cpVer = 1 →
      (volume.staleBlock image before).isFsyncDnode = true → answers 0 = ⟨none, true, none⟩ →
        ∀ result, (volume.chainDisk image superPage host before).findFsyncDnodes answers fuel
            volume.rollForwardStart = some result →
          ∃ entry ∈ result.result.head, entry.ino = (volume.staleBlock image before).ino) := by
  have version : (volume.chainDisk image superPage host before).cpVer = 1 := rfl
  have inside (offset : Nat) (low : offset < 3) : (volume.chainDisk image superPage host
      before).InMain (volume.logBlkaddr .warmNode + offset) :=
    volume.inMain_log image superPage host before (low.trans (by decide))
  have start : volume.rollForwardStart = volume.logBlkaddr .warmNode + 2 := rfl
  have stale := volume.block_rollForwardStart image superPage host before
  rw [← stale]
  refine ⟨?_, ?_, ?_⟩
  · intro offset low
    refine ChainDisk.findFsyncDnodes_of_version (inside offset (by omega)) ?_ fuel
    have page := volume.view_of_device image superPage host before
      (volume.device_warmNode image superPage host before low)
    change (dnodeBlockOf ((volume.view image superPage host before
      (volume.logBlkaddr .warmNode + offset)).page image)).cpVer ≠ 1
    rw [page, cpVer_onesPage]
    decide
  · intro other
    exact ChainDisk.findFsyncDnodes_of_version (inside 2 (by decide)) other fuel
  · intro same marked good result scanned
    exact ChainDisk.lists_findFsyncDnodes (inside 2 (by decide)) same marked good scanned

end Mounted

/-- An inode block of version 1 with a mark of `fsync`. -/
def staleNodePage : Page :=
  Page.zero.putWords
    [(nodeFooterNid, 5), (nodeFooterNid + 4, 5), (nodeFooterNid + 8, 2), (nodeFooterNid + 12, 1)]

/-- A device full of such blocks. -/
def staleDevice : Device MetaBlock := fun _ => bytesBlock staleNodePage

theorem dnodeBlockOf_staleNodePage :
    dnodeBlockOf staleNodePage = ⟨1, 0, 5, true, true, false⟩ := by rfl

/-- The recovery of a new volume takes up a stale inode. -/
theorem findFsyncDnodes_chainDisk_stale : ∃ result,
    (gibibyteVolume.chainDisk (fun _ => Page.zero) Page.zero ⟨0, 0, 0⟩ staleDevice).findFsyncDnodes
        (fun _ => ⟨none, true, none⟩) 2 gibibyteVolume.rollForwardStart = some result ∧
      ∃ entry ∈ result.result.head, entry.ino = 5 := by
  have block := gibibyteVolume.block_rollForwardStart (fun _ => Page.zero) Page.zero ⟨0, 0, 0⟩
    staleDevice
  have stale : gibibyteVolume.staleBlock (fun _ => Page.zero) staleDevice =
      ⟨1, 0, 5, true, true, false⟩ := dnodeBlockOf_staleNodePage
  have stops : (gibibyteVolume.chainDisk (fun _ => Page.zero) Page.zero ⟨0, 0, 0⟩
      staleDevice).reach gibibyteVolume.rollForwardStart 2 = none := by
    have inside := @inMain_log gibibyteVolume (fun _ => Page.zero) Page.zero ⟨0, 0, 0⟩ staleDevice
      .warmNode 2 (by decide)
    have outside : ¬(gibibyteVolume.chainDisk (fun _ => Page.zero) Page.zero ⟨0, 0, 0⟩
        staleDevice).InMain 0 := by
      intro inMain
      have main := gibibyteVolume.areasApart
      have first : gibibyteVolume.sb.mainBlkaddr ≤ 0 := inMain.1
      have superblocks := main.superblocks
      have sit := main.sit
      have nat := main.nat
      have ssa := main.ssa
      have behind := main.main
      omega
    have next := ChainDisk.next_of_continues inside (by
      change ((gibibyteVolume.chainDisk _ _ _ _).block gibibyteVolume.rollForwardStart).cpVer = 1
      rw [block, stale])
    change _ = some ((gibibyteVolume.chainDisk _ _ _ _).block
      gibibyteVolume.rollForwardStart).nextBlkaddr at next
    rw [block, stale] at next
    have ends : (gibibyteVolume.chainDisk (fun _ => Page.zero) Page.zero ⟨0, 0, 0⟩
        staleDevice).next 0 = none := if_neg fun both => outside both.1
    unfold ChainDisk.reach
    change (ChainDisk.next _ (gibibyteVolume.logBlkaddr .warmNode + 2)).bind _ = none
    rw [next, Option.bind_some]
    unfold ChainDisk.reach
    rw [ends]
    rfl
  obtain ⟨result, found⟩ := Option.isSome_iff_exists.mp
    (ChainDisk.scan_isSome_of_reach_none stops)
  have listed := (findFsyncDnodes_chainDisk gibibyteVolume (fun _ => Page.zero) Page.zero ⟨0, 0, 0⟩
    staleDevice (fun _ => ⟨none, true, none⟩) 2).2.2
  rw [stale] at listed
  exact ⟨result, found, listed rfl rfl rfl result found⟩

end NewVolume

end F2fs
end StorageStack
