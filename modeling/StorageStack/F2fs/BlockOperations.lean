import StorageStack.F2fs.AllocationSteps

/-!
# The block operations keep the invariant

`allocate_data_block`, `invalidate_blocks`, `allocate_new_segments` and `recover_data_page` restore
the invariant they suspend, for block addresses their callers may pass.
-/

namespace StorageStack
namespace F2fs

variable {sbi : Sbi} {pending : Set Nat} {ready : Set CursegType} {state next : State}
  {type : CursegType}

/-- The address of a block of the main area which is valid now. -/
def ValidBlock (sbi : Sbi) (state : State) (blkaddr : Nat) : Prop :=
  sbi.getSegno blkaddr < sbi.mainSegments ∧
    (state.sit.sentries (sbi.getSegno blkaddr)).curValidMap
      (sbi.getBlkoffFromSeg0 blkaddr) = true

/-- What a caller passes as the address a new block replaces. -/
def OldBlock (sbi : Sbi) (state : State) (blkaddr : Nat) : Prop :=
  blkaddr = nullAddr ∨ blkaddr = newAddr ∨ ValidBlock sbi state blkaddr

theorem getSegno_special {blkaddr : Nat} (special : blkaddr = nullAddr ∨ blkaddr = newAddr) :
    sbi.getSegno blkaddr = nullSegno := by
  rw [Sbi.getSegno, if_pos special]

/-- `update_sit_entry` for a valid block which is given up. -/
theorem consistent_giveUp {blkaddr : Nat} (mtime : Nat)
    (consistent : Consistent sbi pending ready state) (valid : ValidBlock sbi state blkaddr) :
    ∃ sit, updateSitEntry sbi mtime blkaddr (-1) state = some { state with sit := sit } ∧
      SitUpdated sbi mtime blkaddr (-1) state.sit sit ∧
      state.free.freeSegmap (sbi.getSegno blkaddr) = true ∧
      Consistent sbi (insert (sbi.getSegno blkaddr) pending) ready { state with sit := sit } := by
  obtain ⟨inMain, isValid⟩ := valid
  have inSegment := sbi.getBlkoffFromSeg0_lt blkaddr
  have used := consistent.used_of_valid inMain inSegment isValid
  have positive := (consistent.sit.entry _ inMain).valid_pos inSegment isValid
  obtain ⟨sit, updated, spec, kept⟩ := consistent_updateSitEntry mtime consistent inMain used
    (.inr ⟨rfl, isValid⟩) (.inr (.inr positive)) (fun contra => by omega)
  exact ⟨sit, updated, spec, used, kept⟩

/-- A change of validity keeps the valid blocks valid, apart from one it gives up. -/
theorem SitUpdated.keeps {mtime blkaddr segno offset : Nat} {del : Int} {sit updated : SitInfo}
    (spec : SitUpdated sbi mtime blkaddr del sit updated)
    (valid : (sit.sentries segno).curValidMap offset = true)
    (away : del = 1 ∨
      ¬ (segno = sbi.getSegno blkaddr ∧ offset = sbi.getBlkoffFromSeg0 blkaddr)) :
    (updated.sentries segno).curValidMap offset = true := by
  rw [spec.sentries]
  by_cases same : segno = sbi.getSegno blkaddr
  · subst same
    simp only [Function.update_self, SegEntry.updated]
    split
    · rw [BitMap.set_apply]
      split
      · rfl
      · exact valid
    · next neg =>
        have ne : offset ≠ sbi.getBlkoffFromSeg0 blkaddr := by
          rcases away with rfl | away
          · exact absurd Int.one_pos neg
          · exact fun equal => away ⟨rfl, equal⟩
        rw [BitMap.clear_of_ne ne]
        exact valid
  · rw [Function.update_of_ne same]
    exact valid

/-- `refresh_sit_entry` for a new block which is invalid and behind which the ready cursors stand.
A block which replaces itself is given up again at once. -/
theorem consistent_refreshSitEntry {old new : Nat} (mtime : Nat)
    (consistent : Consistent sbi pending ready state)
    (inMain : sbi.getSegno new < sbi.mainSegments)
    (used : state.free.freeSegmap (sbi.getSegno new) = true)
    (invalid : (state.sit.sentries (sbi.getSegno new)).curValidMap
      (sbi.getBlkoffFromSeg0 new) = false)
    (restale : isCurseg state (sbi.getSegno new) = true ∨ sbi.getSegno new ∈ pending)
    (before : ∀ type ∈ ready, (state.curseg type).segno = sbi.getSegno new →
      sbi.getBlkoffFromSeg0 new < (state.curseg type).nextBlkoff)
    (oldBlock : OldBlock sbi state old ∨ old = new) :
    ∃ sit dirty, refreshSitEntry sbi mtime old new state =
        some { state with sit := sit, dirty := dirty } ∧
      (∀ segno offset, (state.sit.sentries segno).curValidMap offset = true →
        ¬ (segno = sbi.getSegno old ∧ offset = sbi.getBlkoffFromSeg0 old) →
          (sit.sentries segno).curValidMap offset = true) ∧
      Consistent sbi (pending \ {sbi.getSegno old, sbi.getSegno new}) ready
        { state with sit := sit, dirty := dirty } := by
  obtain ⟨sit, updated, spec, marked⟩ := consistent_updateSitEntry mtime consistent inMain used
    (.inl ⟨rfl, invalid⟩) (restale.imp id .inl) (fun _ => before)
  simp only [refreshSitEntry, updated, Option.bind_some]
  by_cases special : old = nullAddr ∨ old = newAddr
  · have noSegno : sbi.getSegno old = nullSegno := getSegno_special special
    rw [if_neg (by simp [noSegno]), Option.bind_some]
    obtain ⟨dirty, located, listed⟩ :=
      consistent_locateDirtySegment (sbi.getSegno old) marked (.inl noSegno)
    obtain ⟨dirty', located', listed'⟩ :=
      consistent_locateDirtySegment (sbi.getSegno new) listed (.inr ⟨inMain, used⟩)
    refine ⟨sit, dirty', by rw [located, Option.bind_some, located'],
      fun _ _ valid _ => spec.keeps valid (.inl rfl), ?_⟩
    exact listed'.with_pending fun segno _ _ _ => by
      simp only [Set.mem_sdiff, Set.mem_insert_iff, Set.mem_singleton_iff]
      tauto
  · have stillValid : ValidBlock sbi { state with sit := sit } old := by
      rcases oldBlock with (null | isNew | valid) | rfl
      · exact absurd (.inl null) special
      · exact absurd (.inr isNew) special
      · refine ⟨valid.1, ?_⟩
        simp only [spec.sentries]
        by_cases same : sbi.getSegno old = sbi.getSegno new
        · have isValid := valid.2
          rw [same] at isValid ⊢
          have different : sbi.getBlkoffFromSeg0 old ≠ sbi.getBlkoffFromSeg0 new := by
            intro equal
            rw [equal, invalid] at isValid
            cases isValid
          simp [SegEntry.updated, BitMap.set_of_ne different, isValid]
        · rw [Function.update_of_ne same]
          exact valid.2
      · refine ⟨inMain, ?_⟩
        simp [spec.sentries, SegEntry.updated]
    have hasSegno : sbi.getSegno old ≠ nullSegno := by
      have small := sbi.mainSegments_lt_nullSegno
      have inMain' := stillValid.1
      omega
    obtain ⟨sit', updated', spec', usedOld, unmarked⟩ := consistent_giveUp mtime marked stillValid
    obtain ⟨dirty, located, listed⟩ :=
      consistent_locateDirtySegment (sbi.getSegno old) unmarked (.inr ⟨stillValid.1, usedOld⟩)
    obtain ⟨dirty', located', listed'⟩ :=
      consistent_locateDirtySegment (sbi.getSegno new) listed (.inr ⟨inMain, used⟩)
    refine ⟨sit', dirty', ?_,
      fun _ _ valid away => spec'.keeps (spec.keeps valid (.inl rfl)) (.inr away), ?_⟩
    · rw [if_pos hasSegno, updated', Option.bind_some, located, Option.bind_some, located']
    · exact listed'.with_pending fun segno _ _ _ => by
        simp only [Set.mem_sdiff, Set.mem_insert_iff, Set.mem_singleton_iff]
        tauto

/-- `invalidate_blocks` for an address a caller may pass. -/
theorem consistent_invalidateBlocks {addr : Nat} (mtime : Nat)
    (consistent : Consistent sbi ∅ ready state)
    (admitted : addr = newAddr ∨ ValidBlock sbi state addr) :
    ∃ sit dirty, invalidateBlocks sbi mtime addr state =
        some { state with sit := sit, dirty := dirty } ∧
      Consistent sbi ∅ ready { state with sit := sit, dirty := dirty } := by
  have notNull : addr ≠ nullAddr := by
    rintro rfl
    rcases admitted with isNew | valid
    · simp [nullAddr, newAddr] at isNew
    · have small := sbi.mainSegments_lt_nullSegno
      have inMain := valid.1
      rw [getSegno_special (.inl rfl)] at inMain
      omega
  have unwarned : bugOn .invalidateBlocks (decide (addr = nullAddr)) state = state := by
    simp [bugOn, notNull]
  simp only [invalidateBlocks, unwarned]
  by_cases isNew : addr = newAddr
  · exact ⟨state.sit, state.dirty, by rw [if_pos isNew], consistent⟩
  · have valid := admitted.resolve_left isNew
    obtain ⟨sit, updated, _, used, unmarked⟩ := consistent_giveUp mtime consistent valid
    obtain ⟨dirty, located, listed⟩ :=
      consistent_locateDirtySegment (sbi.getSegno addr) unmarked (.inr ⟨valid.1, used⟩)
    refine ⟨sit, dirty, by rw [if_neg isNew, updated, Option.bind_some, located], ?_⟩
    exact listed.with_pending fun segno _ _ _ => by simp

/-! ## Allocation of a block -/

theorem consistent_addSumEntry (log : CursegType)
    (consistent : Consistent sbi pending ready state) (sum : Summary) :
    Consistent sbi pending ready (addSumEntry log sum state) := by
  refine consistent_setCurseg consistent rfl (fun bounded => ⟨bounded.fits, bounded.inMain⟩)
    (fun _ mem _ => mem) fun mem => ?_
  obtain ⟨inside, here, behind⟩ := consistent.cursors log mem
  exact ⟨by simpa using inside, by simpa [State.setCurseg] using here,
    by simpa [State.setCurseg] using behind⟩

/-- What `__refresh_next_blkoff` does to a ready cursor. -/
structure Advanced (sbi : Sbi) (type : CursegType) (state next : State) : Prop where
  segno : (next.curseg type).segno = (state.curseg type).segno
  further : (state.curseg type).nextBlkoff < (next.curseg type).nextBlkoff
  sit : next.sit = state.sit
  free : next.free = state.free
  ready : hasCursegSpace sbi next type = true → CursorReady sbi next type

theorem refreshNextBlkoff_advanced (cursor : CursorReady sbi state type) :
    Advanced sbi type state (refreshNextBlkoff sbi type state) := by
  obtain ⟨inside, here, behind⟩ := cursor
  cases alloc : (state.curseg type).allocType with
  | lfs =>
      simp only [refreshNextBlkoff, alloc]
      refine ⟨by simp, by simp, rfl, rfl, fun space => ?_⟩
      have inSegment : (state.curseg type).nextBlkoff + 1 < sbi.blocksPerSeg := by
        simpa [hasCursegSpace] using space
      refine ⟨by simpa using inSegment, ?_, fun _ offset inSegment' from_cursor => ?_⟩
      · simpa [State.setCurseg] using behind alloc _ inSegment (Nat.le_succ _)
      · have later : (state.curseg type).nextBlkoff ≤ offset := by
          simp only [setCurseg_self] at from_cursor
          omega
        simpa [State.setCurseg] using behind alloc offset inSegment' later
  | ssr =>
      simp only [refreshNextBlkoff, alloc, nextFreeBlkoff]
      refine ⟨by simp, ?_, rfl, rfl, fun space => ?_⟩
      · have further : (state.curseg type).nextBlkoff + 1 ≤
            (state.sit.sentries (state.curseg type).segno).targetMap.findNextZeroBit
              sbi.blocksPerSeg ((state.curseg type).nextBlkoff + 1) := BitMap.le_findNext inside
        simpa using further
      · have found : (state.sit.sentries (state.curseg type).segno).targetMap.findNextZeroBit
            sbi.blocksPerSeg ((state.curseg type).nextBlkoff + 1) < sbi.blocksPerSeg := by
          simpa [hasCursegSpace] using space
        refine ⟨by simpa using found, ?_, fun lfs => ?_⟩
        · simpa [State.setCurseg] using BitMap.findNextZeroBit_found found
        · simp at lfs

theorem consistent_refreshNextBlkoff (type : CursegType)
    (consistent : Consistent sbi pending ready state) :
    Consistent sbi pending (ready \ {type}) (refreshNextBlkoff sbi type state) := by
  unfold refreshNextBlkoff
  simp only
  split
  · exact consistent_setCurseg consistent rfl id (fun _ mem _ => mem.1)
      (fun mem => absurd rfl mem.2)
  · exact consistent_setCurseg consistent rfl id (fun _ mem _ => mem.1)
      (fun mem => absurd rfl mem.2)

/-- The offset of the block a log stands on after an allocation that recycles no slack space. -/
def nextOffset (sbi : Sbi) (type : CursegType) (state : State) : Nat :=
  if hasCursegSpace sbi (refreshNextBlkoff sbi type state) type then
    ((refreshNextBlkoff sbi type state).curseg type).nextBlkoff
  else 0

/-- The state in which `allocate_data_block` updates the validity maps: the log has left the block
behind, on the same segment or on another one. -/
structure Claimed (sbi : Sbi) (ready : Set CursegType) (type : CursegType) (state next : State) :
    Prop where
  consistent : Consistent sbi {(state.curseg type).segno} ready next
  used : next.free.freeSegmap (state.curseg type).segno = true
  maps : ∀ segno, (next.sit.sentries segno).curValidMap = (state.sit.sentries segno).curValidMap
  behind : ∀ log, (next.curseg log).segno = (state.curseg type).segno →
    (state.curseg type).nextBlkoff < (next.curseg log).nextBlkoff
  others : ∀ log ≠ type, next.curseg log = state.curseg log
  offset : sbi.f2fsDaMap = true → (next.curseg type).nextBlkoff = nextOffset sbi type state
  porDoing : next.porDoing = state.porDoing

theorem refreshNextBlkoff_of_ne {other : CursegType} (ne : other ≠ type) :
    (refreshNextBlkoff sbi type state).curseg other = state.curseg other := by
  unfold refreshNextBlkoff
  simp only
  split
  · exact setCurseg_of_ne ne
  · exact setCurseg_of_ne ne

theorem curValidMap_setSitEntryType (number segno other : Nat) (modified : Bool) (sit : SitInfo) :
    ((setSitEntryType number segno modified sit).sentries other).curValidMap =
      (sit.sentries other).curValidMap := by
  rw [sentries_setSitEntryType]

theorem claimed_of_space (consistent : Consistent sbi ∅ ready state)
    (cursor : CursorReady sbi state type)
    (space : hasCursegSpace sbi (refreshNextBlkoff sbi type state) type = true) :
    Claimed sbi ready type state (refreshNextBlkoff sbi type state) := by
  have advanced := refreshNextBlkoff_advanced cursor
  have others := consistent_refreshNextBlkoff type consistent
  have all : Consistent sbi ∅ ready (refreshNextBlkoff sbi type state) :=
      others.with_ready fun log mem => by
    by_cases same : log = type
    · exact same ▸ advanced.ready space
    · exact others.cursors log ⟨mem, same⟩
  refine ⟨all.with_pending fun segno _ _ notCurrent => ?_, ?_, ?_, ?_,
    fun log ne => refreshNextBlkoff_of_ne ne, fun _ => by rw [nextOffset, if_pos space], ?_⟩
  · have ne := isCurseg_eq_false_iff.mp notCurrent type
    rw [advanced.segno] at ne
    simp [ne]
  · rw [advanced.free]
    exact consistent.used type
  · intro segno
    rw [advanced.sit]
  · intro log equal
    rw [← advanced.segno] at equal
    obtain rfl := all.distinct log type equal
    exact advanced.further
  · unfold refreshNextBlkoff
    simp only
    split <;> rfl

theorem claimed_of_move {env : Env} (consistent : Consistent sbi ∅ ready state)
    (cursor : CursorReady sbi state type)
    (full : ¬ hasCursegSpace sbi (refreshNextBlkoff sbi type state) type = true)
    (allocated : allocateSegmentByDefault sbi env type false (refreshNextBlkoff sbi type state) =
      some next) : Claimed sbi ready type state next := by
  have advanced := refreshNextBlkoff_advanced cursor
  have others := consistent_refreshNextBlkoff type consistent
  obtain ⟨moved, ready_cursor⟩ := allocateSegmentByDefault_moved others allocated
  have after := moved.consistent others
  rw [advanced.segno] at after
  have all : Consistent sbi (insert (state.curseg type).segno ∅) ready next :=
      after.with_ready fun log mem => by
    by_cases same : log = type
    · exact same ▸ ready_cursor
    · exact after.cursors log ⟨⟨mem, same⟩, same⟩
  have left : ∀ log, (next.curseg log).segno ≠ (state.curseg type).segno := by
    intro log equal
    have away := isCurseg_eq_false_iff.mp moved.notCurrent type
    rw [advanced.segno] at away
    by_cases same : log = type
    · subst same
      exact away equal
    · rw [moved.switched.others log same, ← advanced.segno] at equal
      exact same (others.distinct log type equal)
  refine ⟨by simpa using all, ?_, ?_, fun log equal => absurd equal (left log), fun log ne => ?_,
    fun da => ?_, ?_⟩
  · rw [moved.switched.segmap, BitMap.set_of_ne (Ne.symm (left type)), advanced.free]
    exact consistent.used type
  · intro segno
    rw [moved.switched.sit, curValidMap_setSitEntryType, advanced.sit]
  · rw [moved.switched.others log ne, refreshNextBlkoff_of_ne ne]
  · rw [allocateSegmentByDefault_nextBlkoff da allocated, nextOffset, if_neg full]
  · rw [moved.switched.porDoing]
    unfold refreshNextBlkoff
    simp only
    split <;> rfl

/-- What `allocate_data_block` does. -/
structure Allocated (sbi : Sbi) (ready : Set CursegType) (type : CursegType) (old : Nat)
    (state next : State) (result : Allocation) : Prop where
  consistent : Consistent sbi ∅ ready next
  address : result.newBlkaddr = nextFreeBlkaddr sbi state type
  behind : ∀ log, (next.curseg log).segno = (state.curseg type).segno →
    (state.curseg type).nextBlkoff < (next.curseg log).nextBlkoff
  others : ∀ log ≠ type, next.curseg log = state.curseg log
  offset : sbi.f2fsDaMap = true → (next.curseg type).nextBlkoff = nextOffset sbi type state
  keeps : ∀ segno offset, (state.sit.sentries segno).curValidMap offset = true →
    ¬ (segno = sbi.getSegno old ∧ offset = sbi.getBlkoffFromSeg0 old) →
      (next.sit.sentries segno).curValidMap offset = true
  porDoing : next.porDoing = state.porDoing

theorem nextOffset_addSumEntry (type : CursegType) (sum : Summary) (state : State) :
    nextOffset sbi type (addSumEntry type sum state) = nextOffset sbi type state := by
  have refreshed : ((refreshNextBlkoff sbi type (addSumEntry type sum state)).curseg type).nextBlkoff =
      ((refreshNextBlkoff sbi type state).curseg type).nextBlkoff := by
    cases alloc : (state.curseg type).allocType with
    | lfs => simp [refreshNextBlkoff, addSumEntry, alloc]
    | ssr =>
        simp [refreshNextBlkoff, addSumEntry, alloc, nextFreeBlkoff]
        rfl
  rw [nextOffset, nextOffset, hasCursegSpace, hasCursegSpace, refreshed]

/-- `allocate_data_block` keeps the invariant and returns the block under the cursor. -/
theorem consistent_allocateDataBlock {env : Env} {page : Bool} {old : Nat} {sum : Summary}
    {result : Allocation} (consistent : Consistent sbi ∅ ready state) (isReady : type ∈ ready)
    (oldBlock : OldBlock sbi state old ∨ old = nextFreeBlkaddr sbi state type)
    (allocated : allocateDataBlock sbi env page old sum type state = some (next, result)) :
    Allocated sbi ready type old state next result := by
  have summed := consistent_addSumEntry type consistent sum
  have cursor := summed.cursors type isReady
  have claimed : ∀ claimedState,
      (if hasCursegSpace sbi (refreshNextBlkoff sbi type (addSumEntry type sum state)) type then
          some (refreshNextBlkoff sbi type (addSumEntry type sum state))
        else allocateSegmentByDefault sbi env type false
          (refreshNextBlkoff sbi type (addSumEntry type sum state))) = some claimedState →
        Claimed sbi ready type (addSumEntry type sum state) claimedState := by
    intro claimedState step
    split at step
    · next space => exact Option.some.inj step ▸ claimed_of_space summed cursor space
    · next full => exact claimed_of_move summed cursor full step
  simp only [allocateDataBlock, Option.bind_eq_some_iff, Option.map_eq_some_iff] at allocated
  obtain ⟨claimedState, step, refreshed, refresh, returned⟩ := allocated
  obtain ⟨kept, used, maps, behind, others, offset, porDoing⟩ := claimed claimedState step
  have sameCurseg : ((addSumEntry type sum state).curseg type).segno =
        (state.curseg type).segno ∧
      ((addSumEntry type sum state).curseg type).nextBlkoff =
        (state.curseg type).nextBlkoff := by
    simp [addSumEntry]
  rw [sameCurseg.1, sameCurseg.2] at behind
  rw [sameCurseg.1] at kept used
  have inMain := consistent.inMain type
  have ready := consistent.cursors type isReady
  have segno_eq : sbi.getSegno (nextFreeBlkaddr sbi state type) = (state.curseg type).segno :=
    Sbi.getSegno_address inMain ready.inSegment
  have blkoff_eq : sbi.getBlkoffFromSeg0 (nextFreeBlkaddr sbi state type) =
      (state.curseg type).nextBlkoff := Sbi.getBlkoff_address inMain ready.inSegment
  have invalid : (claimedState.sit.sentries (state.curseg type).segno).curValidMap
      (state.curseg type).nextBlkoff = false := by
    rw [maps]
    have free := ready.here
    simp only [SegEntry.targetMap, BitMap.union_apply, Bool.or_eq_false_iff] at free
    exact free.1
  have oldBlock' : OldBlock sbi claimedState old ∨ old = nextFreeBlkaddr sbi state type := by
    refine oldBlock.imp (Or.imp id (Or.imp id fun valid => ⟨valid.1, ?_⟩)) id
    rw [maps]
    exact valid.2
  obtain ⟨sit, dirty, refresh', keeps, kept'⟩ := consistent_refreshSitEntry env.mtime kept
    (by rw [segno_eq]; exact inMain) (by rw [segno_eq]; exact used)
    (by rw [segno_eq, blkoff_eq]; exact invalid)
    (.inr (by rw [segno_eq]; rfl))
    (fun log _ equal => by
      rw [blkoff_eq]
      rw [segno_eq] at equal
      exact behind log equal) oldBlock'
  obtain rfl := Option.some.inj (refresh'.symm.trans refresh)
  simp only [allocation, Prod.mk.injEq] at returned
  obtain ⟨rfl, rfl⟩ := returned
  rw [nextOffset_addSumEntry] at offset
  have otherLogs : ∀ log ≠ type, claimedState.curseg log = state.curseg log := by
    intro log ne
    rw [others log ne]
    exact setCurseg_of_ne ne
  refine ⟨kept'.with_pending fun segno _ _ _ => ?_, rfl, behind, otherLogs, offset,
    fun segno blkoff valid => keeps segno blkoff (by rw [maps]; exact valid), porDoing⟩
  simp only [segno_eq, Set.mem_sdiff, Set.mem_insert_iff, Set.mem_singleton_iff, Set.mem_empty_iff_false]
  tauto

/-! ## New segments and recovered blocks -/

theorem consistent_allocateNewSegment {env : Env} (consistent : Consistent sbi ∅ ready state)
    (allocated : allocateNewSegment sbi env type state = some next) :
    Consistent sbi ∅ (insert type ready) next ∧ next.porDoing = state.porDoing := by
  simp only [allocateNewSegment, Option.bind_eq_some_iff] at allocated
  obtain ⟨moved, allocation, located⟩ := allocated
  obtain ⟨move, cursor⟩ := allocateSegmentByDefault_moved consistent allocation
  have after := move.consistent consistent
  have all : Consistent sbi (insert (state.curseg type).segno ∅) (insert type ready) moved :=
    after.with_ready fun log mem => by
      by_cases same : log = type
      · exact same ▸ cursor
      · exact after.cursors log ⟨Set.mem_of_mem_insert_of_ne mem same, same⟩
  have used : moved.free.freeSegmap (state.curseg type).segno = true := by
    rw [move.switched.segmap, BitMap.set_apply]
    split
    · rfl
    · exact consistent.used type
  obtain ⟨dirty, located', listed⟩ := consistent_locateDirtySegment (state.curseg type).segno all
    (.inr ⟨consistent.inMain type, used⟩)
  obtain rfl := Option.some.inj (located'.symm.trans located)
  exact ⟨listed.with_pending fun segno _ _ _ => by simp, move.switched.porDoing⟩

theorem consistent_allocateNewSegments {env : Env} (consistent : Consistent sbi ∅ ready state)
    (allocated : allocateNewSegments sbi env state = some next) :
    Consistent sbi ∅ (ready ∪ {type | type.isDataseg = true}) next ∧
      next.porDoing = state.porDoing := by
  simp only [allocateNewSegments, Option.bind_eq_some_iff] at allocated
  obtain ⟨hot, first, warm, second, third⟩ := allocated
  obtain ⟨kept₁, por₁⟩ := consistent_allocateNewSegment consistent first
  obtain ⟨kept₂, por₂⟩ := consistent_allocateNewSegment kept₁ second
  obtain ⟨kept₃, por₃⟩ := consistent_allocateNewSegment kept₂ third
  refine ⟨kept₃.mono_ready ?_, by rw [por₃, por₂, por₁]⟩
  rintro log (mem | isData)
  · simp [mem]
  · cases log <;> simp_all [CursegType.isDataseg]

/-- The state in which `recover_data_page` writes the recovered block: its log is on the segment. -/
structure Placed (sbi : Sbi) (ready : Set CursegType) (type : CursegType) (segno : Nat)
    (state next : State) : Prop where
  consistent : Consistent sbi {(state.curseg type).segno} (ready \ {type}) next
  segno_eq : (next.curseg type).segno = segno
  usedOld : next.free.freeSegmap (state.curseg type).segno = true
  maps : ∀ segno, (next.sit.sentries segno).curValidMap = (state.sit.sentries segno).curValidMap
  porDoing : next.porDoing = state.porDoing

/-- A segment which is current for some log is recovered into that log. -/
theorem recoveryLog_of_current {old new : Nat} (consistent : Consistent sbi pending ready state)
    (log : recoveryLog sbi old new state = some type)
    (current : isCurseg state (sbi.getSegno new) = true) :
    (state.curseg type).segno = sbi.getSegno new := by
  obtain ⟨own, segno_eq⟩ := isCurseg_iff.mp current
  have inMain := (consistent.used_of_current current).1
  rw [recoveryLog, if_neg (by omega), if_neg (by simp [current]), segno_eq,
    consistent.ownType own, CursegType.ofNat?_toNat, Option.some_inj] at log
  rw [← log, segno_eq]

theorem placed_of_recovery {old new : Nat} (consistent : Consistent sbi ∅ ready state)
    (log : recoveryLog sbi old new state = some type)
    (placed : (if sbi.getSegno new ≠ (state.curseg type).segno then
        changeCurseg sbi type true
          (state.setCurseg type { state.curseg type with nextSegno := sbi.getSegno new })
      else some state) = some next) : Placed sbi ready type (sbi.getSegno new) state next := by
  split at placed
  · next elsewhere =>
      have notCurrent : isCurseg state (sbi.getSegno new) = false := by
        by_contra current
        exact elsewhere (recoveryLog_of_current consistent log (by simpa using current)).symm
      have retargeted : Consistent sbi ∅ (ready \ {type})
          (state.setCurseg type { state.curseg type with nextSegno := sbi.getSegno new }) :=
        consistent_setCurseg consistent rfl id (fun _ mem _ => mem.1)
          (fun mem => absurd rfl mem.2)
      have notCurrent' : isCurseg
          (state.setCurseg type { state.curseg type with nextSegno := sbi.getSegno new })
          (sbi.getSegno new) = false := by
        rw [isCurseg_eq_false_iff] at notCurrent ⊢
        intro other
        by_cases same : other = type
        · subst same
          simpa using notCurrent other
        · simpa [State.setCurseg, same] using notCurrent other
      obtain ⟨moved, segno_eq, _, _⟩ :=
        changeCurseg_moved retargeted (by simpa using notCurrent') placed
      have after := moved.consistent retargeted
      refine ⟨?_, by simpa using segno_eq, ?_, ?_, moved.switched.porDoing⟩
      · simpa using after
      · rw [moved.switched.segmap, BitMap.set_apply]
        split
        · rfl
        · exact consistent.used type
      · intro segno
        rw [moved.switched.sit, curValidMap_setSitEntryType]
        rfl
  · next here =>
      push Not at here
      obtain rfl := Option.some.inj placed
      refine ⟨?_, here.symm, consistent.used type, fun _ => rfl, rfl⟩
      refine (consistent.mono_ready Set.sdiff_subset).with_pending fun segno _ _ notCurrent => ?_
      simp [isCurseg_eq_false_iff.mp notCurrent type]

/-- `recover_data_page` keeps the invariant, apart from the cursor of the log it writes to, which
stays on the recovered block. -/
theorem consistent_recoverDataPage {mtime old new : Nat} {sum : Summary}
    (consistent : Consistent sbi ∅ ready state)
    (invalid : (state.sit.sentries (sbi.getSegno new)).curValidMap
      (sbi.getBlkoffFromSeg0 new) = false)
    (oldBlock : OldBlock sbi state old)
    (log : recoveryLog sbi old new state = some type)
    (recovered : recoverDataPage sbi mtime sum old new state = some next) :
    Consistent sbi ∅ (ready \ {type}) next ∧ next.porDoing = state.porDoing := by
  have inMain : sbi.getSegno new < sbi.mainSegments := by
    by_contra outside
    rw [recoveryLog, if_pos (by omega)] at log
    cases log
  simp only [recoverDataPage, log, Option.bind_some, Option.bind_eq_some_iff] at recovered
  obtain ⟨switched, place, refreshed, refresh, located⟩ := recovered
  obtain ⟨kept, segno_eq, usedOld, maps, porDoing⟩ := placed_of_recovery consistent log place
  have positioned : Consistent sbi {(state.curseg type).segno} (ready \ {type})
      (switched.setCurseg type
        { switched.curseg type with nextBlkoff := sbi.getBlkoffFromSeg0 new }) :=
    consistent_setCurseg kept rfl id (fun _ mem _ => mem) (fun mem => absurd rfl mem.2)
  have summed := consistent_addSumEntry type positioned sum
  have segnos : ∀ other, ((addSumEntry type sum (switched.setCurseg type
      { switched.curseg type with nextBlkoff := sbi.getBlkoffFromSeg0 new })).curseg other).segno =
        (switched.curseg other).segno := by
    intro other
    by_cases same : other = type
    · subst same
      simp [addSumEntry]
    · simp [addSumEntry, State.setCurseg, same]
  have current : isCurseg (addSumEntry type sum (switched.setCurseg type
      { switched.curseg type with nextBlkoff := sbi.getBlkoffFromSeg0 new }))
      (sbi.getSegno new) = true :=
    isCurseg_iff.mpr ⟨type, by rw [segnos, segno_eq]⟩
  obtain ⟨sit, dirty, refresh', _, kept'⟩ := consistent_refreshSitEntry mtime summed inMain
    (by rw [← segno_eq]; exact kept.used type)
    (by
      have same := maps (sbi.getSegno new)
      rw [← same] at invalid
      exact invalid)
    (.inl current)
    (fun other mem equal => by
      rw [segnos, ← segno_eq] at equal
      exact absurd (kept.distinct other type equal) mem.2)
    (.inl (oldBlock.imp id (Or.imp id fun valid => ⟨valid.1, by
      have same := maps (sbi.getSegno old)
      have isValid := valid.2
      rw [← same] at isValid
      exact isValid⟩)))
  obtain rfl := Option.some.inj (refresh'.symm.trans refresh)
  obtain ⟨dirty', located', listed⟩ := consistent_locateDirtySegment (state.curseg type).segno kept'
    (.inr ⟨consistent.inMain type, usedOld⟩)
  obtain rfl := Option.some.inj (located'.symm.trans located)
  refine ⟨listed.with_pending fun segno _ _ _ => ?_, porDoing⟩
  simp only [Set.mem_sdiff, Set.mem_insert_iff, Set.mem_singleton_iff, Set.mem_empty_iff_false]
  tauto

end F2fs
end StorageStack
