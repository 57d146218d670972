import StorageStack.F2fs.SegmentManager

/-!
# What runs of the segment manager guarantee

From a mount on, a block that is allocated is neither valid nor part of the last checkpoint, and the
counters of the segment information table count its bit maps.  The second guarantee ends with the
first padding of the disaggregated mapping: `allocate_dummy_data_block` gives up a block which was
never marked valid.
-/

namespace StorageStack
namespace F2fs

open Execution

variable {sbi : Sbi} {image : Image} {state next : State} {operations : List Operation}
  {manager : Manager}

/-- The invariant holds after every run without padding. -/
theorem run_sound {mtime : Nat} (image_consistent : ImageConsistent sbi image)
    (mounted : buildSegmentManager sbi mtime image = some state)
    (admitted : Meets (step sbi) (Admitted sbi) ⟨state, false⟩ operations)
    (noPadding : ∀ operation ∈ operations, operation.NoPadding)
    (execution : run (step sbi) ⟨state, false⟩ operations = some manager) : Sound sbi manager :=
  run_invariant (fun _ _ _ sound meets stepped => step_sound sound meets.1 meets.2 stepped)
    (sound_mounted image_consistent mounted)
    (meets_and admitted ((meets_iff_forall execution).mpr noPadding)) execution

/-! ## Allocated blocks -/

/-- The block lies in the current segment of the log and is valid neither now nor in the last
checkpoint. -/
structure FreshBlock (sbi : Sbi) (state : State) (type : CursegType) (blkaddr : Nat) : Prop where
  inMain : sbi.getSegno blkaddr < sbi.mainSegments
  current : sbi.getSegno blkaddr = (state.curseg type).segno
  lower : sbi.startBlock (sbi.getSegno blkaddr) ≤ blkaddr
  upper : blkaddr < sbi.startBlock (sbi.getSegno blkaddr) + sbi.blocksPerSeg
  invalid : (state.sit.sentries (sbi.getSegno blkaddr)).curValidMap
    (sbi.getBlkoffFromSeg0 blkaddr) = false
  unsaved : (state.sit.sentries (sbi.getSegno blkaddr)).ckptValidMap
    (sbi.getBlkoffFromSeg0 blkaddr) = false

theorem freshBlock_of_cursor {type : CursegType} (inMain : (state.curseg type).segno < sbi.mainSegments)
    (cursor : CursorReady sbi state type) :
    FreshBlock sbi state type (nextFreeBlkaddr sbi state type) := by
  have segno_eq : sbi.getSegno (nextFreeBlkaddr sbi state type) = (state.curseg type).segno :=
    Sbi.getSegno_address inMain cursor.inSegment
  have blkoff_eq : sbi.getBlkoffFromSeg0 (nextFreeBlkaddr sbi state type) =
      (state.curseg type).nextBlkoff := Sbi.getBlkoff_address inMain cursor.inSegment
  have free := cursor.here
  simp only [SegEntry.targetMap, BitMap.union_apply, Bool.or_eq_false_iff] at free
  refine ⟨by rw [segno_eq]; exact inMain, segno_eq, ?_, ?_, ?_, ?_⟩
  · rw [segno_eq]
    exact Nat.le_add_right _ _
  · rw [segno_eq]
    exact Nat.add_lt_add_left cursor.inSegment _
  · rw [segno_eq, blkoff_eq]
    exact free.1
  · rw [segno_eq, blkoff_eq]
    exact free.2

/-- Every block `allocate_data_block` returns in a run from a mount is fresh. -/
theorem allocateDataBlock_fresh {mtime : Nat} {env : Env} {page : Bool} {oldBlkaddr : Nat}
    {sum : Summary} {type : CursegType} {result : Allocation}
    (image_consistent : ImageConsistent sbi image)
    (mounted : buildSegmentManager sbi mtime image = some state)
    (admitted : Meets (step sbi) (Admitted sbi) ⟨state, false⟩ operations)
    (noPadding : ∀ operation ∈ operations, operation.NoPadding)
    (execution : run (step sbi) ⟨state, false⟩ operations = some manager)
    (admits : Admitted sbi manager (.allocateDataBlock env page oldBlkaddr sum type))
    (allocated : allocateDataBlock sbi env page oldBlkaddr sum type manager.state =
      some (next, result)) : FreshBlock sbi manager.state type result.newBlkaddr := by
  obtain ⟨between, recovered, oldBlock⟩ := admits
  have consistent :=
    (run_sound image_consistent mounted admitted noPadding execution).consistent between
  have ready := mem_readyLogs recovered type
  rw [(consistent_allocateDataBlock consistent ready (.inl oldBlock) allocated).address]
  exact freshBlock_of_cursor (consistent.inMain type) (consistent.cursors type ready)

/-- The second block written to the small volume is the second one of its log's segment. -/
theorem allocateDataBlock_fresh_example :
    ∃ state manager next result,
      buildSegmentManager smallVolume 0 smallImage = some state ∧
      run (step smallVolume) ⟨state, false⟩
        [.allocateDataBlock ⟨0, 0, 0⟩ false nullAddr ⟨3, 0, 0⟩ .warmData] = some manager ∧
      allocateDataBlock smallVolume ⟨0, 0, 0⟩ false nullAddr ⟨4, 0, 0⟩ .warmData manager.state =
        some (next, result) ∧
      result.newBlkaddr = smallVolume.startBlock 1 + 1 ∧
      FreshBlock smallVolume manager.state .warmData result.newBlkaddr := by
  have evaluated : ((buildSegmentManager smallVolume 0 smallImage).bind fun state =>
      (run (step smallVolume) ⟨state, false⟩
        [.allocateDataBlock ⟨0, 0, 0⟩ false nullAddr ⟨3, 0, 0⟩ .warmData]).bind fun manager =>
      (allocateDataBlock smallVolume ⟨0, 0, 0⟩ false nullAddr ⟨4, 0, 0⟩ .warmData
        manager.state).map fun result =>
          (manager.checkpointing, manager.state.porDoing, result.2.newBlkaddr)) =
      some (false, false, smallVolume.startBlock 1 + 1) := by
    decide +kernel
  simp only [Option.bind_eq_some_iff, Option.map_eq_some_iff, Prod.mk.injEq] at evaluated
  obtain ⟨state, mounted, manager, execution, ⟨next, result⟩, allocated, between, recovered,
    address⟩ := evaluated
  have mountedRecovered := (buildSegmentManager_consistent smallImage_consistent mounted).2
  have admitted : Meets (step smallVolume) (Admitted smallVolume) ⟨state, false⟩
      [.allocateDataBlock ⟨0, 0, 0⟩ false nullAddr ⟨3, 0, 0⟩ .warmData] :=
    ⟨⟨rfl, mountedRecovered, .inl rfl⟩, fun _ _ => trivial⟩
  refine ⟨state, manager, next, result, mounted, execution, allocated, address, ?_⟩
  exact allocateDataBlock_fresh smallImage_consistent mounted admitted
    (by simp [Operation.NoPadding]) execution ⟨between, recovered, .inl rfl⟩ allocated

/-! ## Accounting -/

/-- The counters of the segment information table count its bit maps, and no check of
`update_sit_entry` has fired. -/
structure Accounts (sbi : Sbi) (state : State) : Prop where
  valid : ∀ segno < sbi.mainSegments, (state.sit.sentries segno).validBlocks =
    (state.sit.sentries segno).curValidMap.popCount sbi.blocksPerSeg
  bounded : ∀ segno < sbi.mainSegments,
    (state.sit.sentries segno).validBlocks ≤ sbi.blocksPerSeg
  ckpt : ∀ segno < sbi.mainSegments, (state.sit.sentries segno).ckptValidBlocks =
    ((state.sit.sentries segno).curValidMap.union
      (state.sit.sentries segno).ckptValidMap).popCount sbi.blocksPerSeg
  sections : 1 < sbi.segsPerSec → ∀ secno < sbi.totalSections,
    state.sit.secEntries secno = sectionSum sbi state.sit.sentries secno
  quiet : BugSite.updateSitEntry ∉ state.warnings

theorem Consistent.accounts {pending : Set Nat} {ready : Set CursegType}
    (consistent : Consistent sbi pending ready state) : Accounts sbi state where
  valid segno inMain := (consistent.sit.entry segno inMain).valid
  bounded segno inMain := (consistent.sit.entry segno inMain).le
  ckpt segno inMain := (consistent.sit.entry segno inMain).ckpt
  sections := consistent.sit.sections
  quiet := consistent.quiet

theorem Sound.accounts (sound : Sound sbi manager) : Accounts sbi manager.state := by
  cases sound with
  | running consistent => exact consistent.accounts
  | checkpointing consistent =>
      obtain ⟨valid, bounded, ckpt, sections, quiet⟩ := consistent.accounts
      exact ⟨valid, bounded, ckpt, sections, quiet⟩

theorem mem_warnings_bugOn {site other : BugSite} {condition : Bool}
    (warned : site ∈ state.warnings) : site ∈ (bugOn other condition state).warnings := by
  unfold bugOn
  split
  · exact List.mem_append_left _ warned
  · exact warned

/-- `locate_dirty_segment` forgets no warning. -/
theorem mem_warnings_locateDirtySegment {site : BugSite} {segno : Nat}
    (warned : site ∈ state.warnings) (located : locateDirtySegment sbi segno state = some next) :
    site ∈ next.warnings := by
  have dirtyType : ∀ type, site ∈ (locateDirtyType segno type state).warnings := by
    intro type
    simp only [locateDirtyType]
    split
    · exact warned
    · split
      · split
        · exact mem_warnings_bugOn warned
        · exact warned
      · exact warned
  have removed : ∀ {before after : State}, site ∈ before.warnings →
      removeDirtyType sbi segno .dirty before = some after → site ∈ after.warnings := by
    intro before after warned removal
    simp only [removeDirtyType, if_true, Option.map_eq_some_iff] at removal
    obtain ⟨own, _, rfl⟩ := removal
    split
    · exact warned
    · exact warned
  unfold locateDirtySegment at located
  simp only at located
  split at located
  · exact Option.some.inj located ▸ warned
  · split at located
    · cases located
    · split at located
      · exact removed (dirtyType .pre) located
      · split at located
        · exact Option.some.inj located ▸ dirtyType .dirty
        · exact removed warned located

/-- Padding gives up the block under the cursor, which is not valid: a check fires. -/
theorem allocateDummyDataBlock_warns {env : Env} {page : Bool} {type : CursegType}
    {result : Allocation} (consistent : Consistent sbi ∅ (readyLogs state) state)
    (recovered : state.porDoing = false)
    (padded : allocateDummyDataBlock sbi env page type state = some (next, result)) :
    BugSite.updateSitEntry ∈ next.warnings := by
  have cursor := consistent.cursors type (mem_readyLogs recovered type)
  have fresh := freshBlock_of_cursor (consistent.inMain type) cursor
  have space : hasCursegSpace sbi state type = true := by
    simpa [hasCursegSpace] using cursor.inSegment
  simp only [allocateDummyDataBlock, space, if_true, Option.bind_some, Option.bind_eq_some_iff,
    Option.map_eq_some_iff, allocation, Prod.mk.injEq] at padded
  obtain ⟨updated, update, located, location, rfl, _⟩ := padded
  refine mem_warnings_locateDirtySegment ?_ location
  have inMain := fresh.inMain
  simp only [updateSitEntry, fresh.invalid] at update
  rw [if_neg (by omega)] at update
  rw [← Option.some.inj update]
  simp [bugOn]

/-- In a run from a mount the accounting holds throughout exactly if nothing is padded. -/
theorem accounts_always_iff {mtime : Nat} (image_consistent : ImageConsistent sbi image)
    (mounted : buildSegmentManager sbi mtime image = some state)
    (admitted : Meets (step sbi) (Admitted sbi) ⟨state, false⟩ operations)
    (execution : run (step sbi) ⟨state, false⟩ operations = some manager) :
    Always (step sbi) (fun manager => Accounts sbi manager.state) ⟨state, false⟩ operations ↔
      ∀ operation ∈ operations, operation.NoPadding := by
  rw [← meets_iff_forall execution]
  refine always_iff_meets (fun _ sound => Sound.accounts sound)
    (fun _ _ _ sound admits noPadding stepped => step_sound sound admits noPadding stepped)
    (fun before operation after sound admits stepped accounts => ?_)
    (sound_mounted image_consistent mounted) admitted execution
  cases operation with
  | allocateDummyDataBlock env page type =>
      obtain ⟨between, recovered⟩ := admits
      obtain ⟨⟨padded, result⟩, padding, rfl⟩ := Option.map_eq_some_iff.mp stepped
      exact absurd (allocateDummyDataBlock_warns (sound.consistent between) recovered padding)
        accounts.quiet
  | _ => trivial

/-- A write after a mount of the small volume keeps the accounting. -/
theorem accounts_always_example :
    ∃ state manager, buildSegmentManager smallVolume 0 smallImage = some state ∧
      run (step smallVolume) ⟨state, false⟩
        [.allocateDataBlock ⟨0, 0, 0⟩ false nullAddr ⟨3, 0, 0⟩ .warmData] = some manager ∧
      (Always (step smallVolume) (fun manager => Accounts smallVolume manager.state)
          ⟨state, false⟩ [.allocateDataBlock ⟨0, 0, 0⟩ false nullAddr ⟨3, 0, 0⟩ .warmData] ↔
        ∀ operation ∈ [Operation.allocateDataBlock ⟨0, 0, 0⟩ false nullAddr ⟨3, 0, 0⟩ .warmData],
          operation.NoPadding) := by
  have evaluated : ((buildSegmentManager smallVolume 0 smallImage).bind fun state =>
      (run (step smallVolume) ⟨state, false⟩
        [.allocateDataBlock ⟨0, 0, 0⟩ false nullAddr ⟨3, 0, 0⟩ .warmData]).map fun manager =>
          manager.checkpointing) = some false := by
    decide +kernel
  simp only [Option.bind_eq_some_iff, Option.map_eq_some_iff] at evaluated
  obtain ⟨state, mounted, manager, execution, _⟩ := evaluated
  have recovered := (buildSegmentManager_consistent smallImage_consistent mounted).2
  exact ⟨state, manager, mounted, execution, accounts_always_iff smallImage_consistent mounted
    ⟨⟨rfl, recovered, .inl rfl⟩, fun _ _ => trivial⟩ execution⟩

/-- One padding after a mount of the small volume: the count of valid blocks of the hot data log's
segment wraps below zero, and both checks of `update_sit_entry` fire. -/
theorem not_accounts_after_padding :
    ∃ state manager, buildSegmentManager smallVolume 0 smallImage = some state ∧
      run (step smallVolume) ⟨state, false⟩
        [.allocateDummyDataBlock ⟨0, 0, 0⟩ true .hotData] = some manager ∧
      Meets (step smallVolume) (Admitted smallVolume) ⟨state, false⟩
        [.allocateDummyDataBlock ⟨0, 0, 0⟩ true .hotData] ∧
      (manager.state.sit.sentries 0).validBlocks = 65535 ∧
      (manager.state.sit.sentries 0).curValidMap.popCount smallVolume.blocksPerSeg = 0 ∧
      manager.state.warnings = [.updateSitEntry, .updateSitEntry] ∧
      ¬ Accounts smallVolume manager.state := by
  have evaluated : ((buildSegmentManager smallVolume 0 smallImage).bind fun state =>
      (run (step smallVolume) ⟨state, false⟩
        [.allocateDummyDataBlock ⟨0, 0, 0⟩ true .hotData]).map fun manager =>
          ((manager.state.sit.sentries 0).validBlocks,
            (manager.state.sit.sentries 0).curValidMap.popCount smallVolume.blocksPerSeg,
            manager.state.warnings)) =
      some (65535, 0, [.updateSitEntry, .updateSitEntry]) := by
    decide +kernel
  simp only [Option.bind_eq_some_iff, Option.map_eq_some_iff, Prod.mk.injEq] at evaluated
  obtain ⟨state, mounted, manager, execution, valid, count, warnings⟩ := evaluated
  have recovered := (buildSegmentManager_consistent smallImage_consistent mounted).2
  refine ⟨state, manager, mounted, execution, ⟨⟨rfl, recovered⟩, fun _ _ => trivial⟩, valid, count,
    warnings, fun accounts => accounts.quiet ?_⟩
  rw [warnings]
  exact List.mem_cons_self

end F2fs
end StorageStack
