import StorageStack.F2fs.BlockAllocation

/-!
# The invariant of the segment manager

One invariant ties the validity maps and their counters, the free maps, the dirty lists and the
cursors of the six logs together.  In the middle of an operation two parts of it are suspended: a
segment whose valid blocks have changed is *pending* until `locate_dirty_segment` lists it again,
and the cursor of a log is not *ready* until it stands on a block which is free in both maps.
-/

namespace StorageStack
namespace F2fs

/-- The log's cursor stands on a block which is invalid now and in the last checkpoint; in a segment
written front to back all later blocks are so, too. -/
structure CursorReady (sbi : Sbi) (state : State) (type : CursegType) : Prop where
  inSegment : (state.curseg type).nextBlkoff < sbi.blocksPerSeg
  here : (state.sit.sentries (state.curseg type).segno).targetMap
    (state.curseg type).nextBlkoff = false
  behind : (state.curseg type).allocType = .lfs → ∀ offset < sbi.blocksPerSeg,
    (state.curseg type).nextBlkoff ≤ offset →
      (state.sit.sentries (state.curseg type).segno).targetMap offset = false

/-- The SIT journal fits its block and names segments of the main area. -/
structure JournalBounded (sbi : Sbi) (sum : SummaryBlock) : Prop where
  fits : sum.nSits ≤ sitJournalEntries
  inMain : ∀ index < sum.nSits, (sum.sitJournal index).segno < sbi.mainSegments

/-- The invariant, with the `pending` segments and the logs whose cursor is `ready`. -/
structure Consistent (sbi : Sbi) (pending : Set Nat) (ready : Set CursegType) (state : State) :
    Prop where
  sit : SitAccounted sbi state.sit
  counted : Counted sbi state.dirty
  secmap : SecmapFree sbi state.free
  typed : ∀ segno < sbi.mainSegments, ∃ log : CursegType,
    (state.sit.sentries segno).type = log.toNat
  inMain : ∀ type, (state.curseg type).segno < sbi.mainSegments
  distinct : ∀ left right, (state.curseg left).segno = (state.curseg right).segno → left = right
  used : ∀ type, state.free.freeSegmap (state.curseg type).segno = true
  ownType : ∀ type, (state.sit.sentries (state.curseg type).segno).type = type.toNat
  unlisted : ∀ type, Unlisted (listsOf state.dirty (state.curseg type).segno)
  freeUnlisted : ∀ segno < sbi.mainSegments, state.free.freeSegmap segno = false →
    Unlisted (listsOf state.dirty segno)
  freeEmpty : ∀ segno < sbi.mainSegments, state.free.freeSegmap segno = false →
    ∀ offset < sbi.blocksPerSeg, (state.sit.sentries segno).targetMap offset = false
  stale : ∀ segno < sbi.mainSegments, state.free.freeSegmap segno = true →
    isCurseg state segno = false → segno ∈ pending →
      Stale (state.sit.sentries segno) (listsOf state.dirty segno)
  listed : ∀ segno < sbi.mainSegments, state.free.freeSegmap segno = true →
    isCurseg state segno = false → segno ∉ pending →
      Listed sbi (state.sit.sentries segno) (listsOf state.dirty segno)
  cursors : ∀ type ∈ ready, CursorReady sbi state type
  quiet : BugSite.updateSitEntry ∉ state.warnings
  journal : JournalBounded sbi (state.curseg .coldData).sumBlk

namespace Consistent

variable {sbi : Sbi} {pending : Set Nat} {ready : Set CursegType} {state : State}

theorem used_of_current (consistent : Consistent sbi pending ready state) {segno : Nat}
    (current : isCurseg state segno = true) :
    segno < sbi.mainSegments ∧ state.free.freeSegmap segno = true := by
  obtain ⟨type, rfl⟩ := isCurseg_iff.mp current
  exact ⟨consistent.inMain type, consistent.used type⟩

/-- A segment with a valid block is in use. -/
theorem used_of_valid (consistent : Consistent sbi pending ready state) {segno offset : Nat}
    (inMain : segno < sbi.mainSegments) (inSegment : offset < sbi.blocksPerSeg)
    (valid : (state.sit.sentries segno).curValidMap offset = true) :
    state.free.freeSegmap segno = true := by
  by_contra unused
  have empty := consistent.freeEmpty segno inMain (by simpa using unused) offset inSegment
  simp [SegEntry.targetMap, valid] at empty

/-- Logs may be added to the ready ones when their cursors are ready, and dropped at will. -/
theorem with_ready (consistent : Consistent sbi pending ready state)
    {ready' : Set CursegType} (cursors : ∀ type ∈ ready', CursorReady sbi state type) :
    Consistent sbi pending ready' state :=
  { consistent with cursors := cursors }

theorem mono_ready (consistent : Consistent sbi pending ready state)
    {ready' : Set CursegType} (subset : ready' ⊆ ready) : Consistent sbi pending ready' state :=
  consistent.with_ready fun type mem => consistent.cursors type (subset mem)

/-- Only segments in use which are no current segment can be pending. -/
theorem with_pending (consistent : Consistent sbi pending ready state) {pending' : Set Nat}
    (agree : ∀ segno < sbi.mainSegments, state.free.freeSegmap segno = true →
      isCurseg state segno = false → (segno ∈ pending' ↔ segno ∈ pending)) :
    Consistent sbi pending' ready state :=
  { consistent with
    stale := fun segno inMain used notCurrent mem =>
      consistent.stale segno inMain used notCurrent ((agree segno inMain used notCurrent).mp mem)
    listed := fun segno inMain used notCurrent absent =>
      consistent.listed segno inMain used notCurrent
        fun mem => absent ((agree segno inMain used notCurrent).mpr mem) }

end Consistent

/-! ## Marking blocks valid and invalid -/

theorem targetMap_updated_of_ne {se : SegEntry} {mtime offset other : Nat} {del : Int}
    (ne : other ≠ offset) : (se.updated mtime offset del).targetMap other = se.targetMap other := by
  simp only [SegEntry.targetMap, SegEntry.updated, BitMap.union_apply]
  split
  · rw [BitMap.set_of_ne ne]
  · rw [BitMap.clear_of_ne ne]

theorem targetMap_updated_of_neg {se : SegEntry} {mtime offset other : Nat}
    (free : se.targetMap other = false) :
    (se.updated mtime offset (-1)).targetMap other = false := by
  by_cases same : other = offset
  · subst same
    simp only [SegEntry.targetMap, SegEntry.updated, BitMap.union_apply, Bool.or_eq_false_iff]
      at free ⊢
    simp [free.2]
  · rw [targetMap_updated_of_ne same, free]

/-- A fitting change of validity keeps the invariant, with the segment pending, when the block does
not lie at or behind the ready cursor of its segment. -/
theorem consistent_updateSitEntry {sbi : Sbi} {pending : Set Nat} {ready : Set CursegType}
    {state : State} {blkaddr : Nat} {del : Int} (mtime : Nat)
    (consistent : Consistent sbi pending ready state)
    (inMain : sbi.getSegno blkaddr < sbi.mainSegments)
    (used : state.free.freeSegmap (sbi.getSegno blkaddr) = true)
    (fits : Fits (state.sit.sentries (sbi.getSegno blkaddr)) (sbi.getBlkoffFromSeg0 blkaddr) del)
    (restale : isCurseg state (sbi.getSegno blkaddr) = true ∨ sbi.getSegno blkaddr ∈ pending ∨
      0 < (state.sit.sentries (sbi.getSegno blkaddr)).validBlocks)
    (before : del = 1 → ∀ type ∈ ready, (state.curseg type).segno = sbi.getSegno blkaddr →
      sbi.getBlkoffFromSeg0 blkaddr < (state.curseg type).nextBlkoff) :
    ∃ sit, updateSitEntry sbi mtime blkaddr del state = some { state with sit := sit } ∧
      SitUpdated sbi mtime blkaddr del state.sit sit ∧
      Consistent sbi (insert (sbi.getSegno blkaddr) pending) ready { state with sit := sit } := by
  obtain ⟨sit, updated, spec⟩ := updateSitEntry_spec mtime consistent.sit inMain fits
  have inSegment := sbi.getBlkoffFromSeg0_lt blkaddr
  have entry : sit.sentries (sbi.getSegno blkaddr) =
      (state.sit.sentries (sbi.getSegno blkaddr)).updated mtime
        (sbi.getBlkoffFromSeg0 blkaddr) del := by
    simp [spec.sentries]
  have other_entry : ∀ segno ≠ sbi.getSegno blkaddr,
      sit.sentries segno = state.sit.sentries segno := by
    intro segno ne
    simp [spec.sentries, ne]
  have type_eq : ∀ segno, (sit.sentries segno).type = (state.sit.sentries segno).type := by
    intro segno
    by_cases same : segno = sbi.getSegno blkaddr
    · subst same
      simp [entry, SegEntry.updated]
    · rw [other_entry segno same]
  have own : ∀ segno lists, OwnLog (state.sit.sentries segno) lists →
      OwnLog (sit.sentries segno) lists := by
    intro segno lists own log
    rw [type_eq]
    exact own log
  refine ⟨sit, updated, spec, ?_⟩
  refine ⟨spec.accounted, consistent.counted, consistent.secmap, ?_, consistent.inMain,
    consistent.distinct, consistent.used, ?_, consistent.unlisted, consistent.freeUnlisted, ?_, ?_,
    ?_, ?_, consistent.quiet, consistent.journal⟩
  · intro segno inMain'
    rw [type_eq]
    exact consistent.typed segno inMain'
  · intro type
    rw [type_eq]
    exact consistent.ownType type
  · intro segno inMain' free
    have ne : segno ≠ sbi.getSegno blkaddr := by
      rintro rfl
      simp [used] at free
    rw [other_entry segno ne]
    exact consistent.freeEmpty segno inMain' free
  · intro segno inMain' inUse notCurrent mem
    by_cases same : segno = sbi.getSegno blkaddr
    · subst same
      by_cases wasPending : sbi.getSegno blkaddr ∈ pending
      · have stale := consistent.stale _ inMain' inUse notCurrent wasPending
        exact ⟨stale.pre, own _ _ stale.log⟩
      · have listed := consistent.listed _ inMain' inUse notCurrent wasPending
        have positive : (state.sit.sentries (sbi.getSegno blkaddr)).validBlocks ≠ 0 := by
          rcases restale with current | isPending | positive
          · cases current.symm.trans notCurrent
          · exact absurd isPending wasPending
          · omega
        exact ⟨by simp [listed.pre, positive], own _ _ listed.log⟩
    · have stale := consistent.stale segno inMain' inUse notCurrent
        (Set.mem_of_mem_insert_of_ne mem same)
      exact ⟨stale.pre, own _ _ stale.log⟩
  · intro segno inMain' inUse notCurrent absent
    have ne : segno ≠ sbi.getSegno blkaddr := by
      rintro rfl
      exact absent (Set.mem_insert _ _)
    rw [other_entry segno ne]
    exact consistent.listed segno inMain' inUse notCurrent
      fun mem => absent (Set.mem_insert_of_mem _ mem)
  · intro type mem
    obtain ⟨inside, here, behind⟩ := consistent.cursors type mem
    by_cases same : (state.curseg type).segno = sbi.getSegno blkaddr
    · rcases fits with ⟨rfl, invalid⟩ | ⟨rfl, valid⟩
      · have earlier := before rfl type mem same
        refine ⟨inside, ?_, fun lfs offset inSegment' from_cursor => ?_⟩
        · simp only [same, entry] at here ⊢
          rw [targetMap_updated_of_ne (by omega)]
          exact here
        · have free := behind lfs offset inSegment' from_cursor
          simp only [same, entry] at free from_cursor ⊢
          rw [targetMap_updated_of_ne (by omega)]
          exact free
      · refine ⟨inside, ?_, fun lfs offset inSegment' from_cursor => ?_⟩
        · simp only [same, entry] at here ⊢
          exact targetMap_updated_of_neg here
        · have free := behind lfs offset inSegment' from_cursor
          simp only [same, entry] at free ⊢
          exact targetMap_updated_of_neg free
    · refine ⟨inside, ?_, fun lfs offset inSegment' from_cursor => ?_⟩
      · simp only [other_entry _ same]
        exact here
      · simp only [other_entry _ same]
        exact behind lfs offset inSegment' from_cursor

/-! ## Listing a segment again -/

/-- `locate_dirty_segment` lists a pending segment. -/
theorem consistent_locateDirtySegment {sbi : Sbi} {pending : Set Nat} {ready : Set CursegType}
    {state : State} (segno : Nat) (consistent : Consistent sbi pending ready state)
    (used : segno = nullSegno ∨ segno < sbi.mainSegments ∧ state.free.freeSegmap segno = true) :
    ∃ dirty, locateDirtySegment sbi segno state = some { state with dirty := dirty } ∧
      Consistent sbi (pending \ {segno}) ready { state with dirty := dirty } := by
  have small := sbi.mainSegments_lt_nullSegno
  by_cases skipped : segno = nullSegno ∨ isCurseg state segno = true
  · refine ⟨state.dirty, by rw [locateDirtySegment, if_pos skipped], ?_⟩
    refine consistent.with_pending fun other inMain _ notCurrent => ?_
    have ne : other ≠ segno := by
      rintro rfl
      rcases skipped with special | current
      · omega
      · cases current.symm.trans notCurrent
    simp [ne]
  · push Not at skipped
    have notCurrent : isCurseg state segno = false := by simpa using skipped.2
    obtain ⟨inMain, inUse⟩ := used.resolve_left skipped.1
    obtain ⟨log, type_eq⟩ := consistent.typed segno inMain
    have lists : Stale (state.sit.sentries segno) (listsOf state.dirty segno) ∨
        Listed sbi (state.sit.sentries segno) (listsOf state.dirty segno) := by
      by_cases mem : segno ∈ pending
      · exact .inl (consistent.stale segno inMain inUse notCurrent mem)
      · exact .inr (consistent.listed segno inMain inUse notCurrent mem)
    obtain ⟨dirty, located, frame, listed⟩ :=
      locateDirtySegment_spec inMain consistent.counted notCurrent type_eq lists
    have current_ne : ∀ type, (state.curseg type).segno ≠ segno :=
      fun type equal => isCurseg_eq_false_iff.mp notCurrent type equal.symm
    refine ⟨dirty, located, { consistent with
      counted := frame.counted, unlisted := ?_, freeUnlisted := ?_, stale := ?_, listed := ?_,
      cursors := fun type mem => ?_ }⟩
    · intro type
      simp only [frame.others _ (current_ne type)]
      exact consistent.unlisted type
    · intro other inMain' free
      have ne : other ≠ segno := by
        rintro rfl
        simp [inUse] at free
      simp only [frame.others _ ne]
      exact consistent.freeUnlisted other inMain' free
    · intro other inMain' inUse' notCurrent' mem
      simp only [frame.others _ mem.2]
      exact consistent.stale other inMain' inUse' notCurrent' mem.1
    · intro other inMain' inUse' notCurrent' absent
      by_cases same : other = segno
      · subst same
        exact listed
      · simp only [frame.others _ same]
        exact consistent.listed other inMain' inUse' notCurrent'
          fun mem => absent ⟨mem, same⟩
    · obtain ⟨inside, here, behind⟩ := consistent.cursors type mem
      exact ⟨inside, here, behind⟩

/-! ## Changing the segment of a log -/

/-- A log has moved to segment `segno`. -/
structure Switched (sbi : Sbi) (type : CursegType) (segno : Nat) (state next : State) : Prop where
  segmap : next.free.freeSegmap = state.free.freeSegmap.set segno
  secmap : SecmapFree sbi next.free
  lists : DirtyFrame sbi segno state.dirty next.dirty
  unlisted : Unlisted (listsOf next.dirty segno)
  sit : next.sit = setSitEntryType type.toNat segno true state.sit
  moved : (next.curseg type).segno = segno
  others : ∀ other ≠ type, next.curseg other = state.curseg other
  journal : JournalBounded sbi (state.curseg type).sumBlk →
    JournalBounded sbi (next.curseg type).sumBlk
  quiet : BugSite.updateSitEntry ∉ state.warnings → BugSite.updateSitEntry ∉ next.warnings
  porDoing : next.porDoing = state.porDoing

theorem sentries_setSitEntryType (type segno other : Nat) (modified : Bool) (sit : SitInfo) :
    (setSitEntryType type segno modified sit).sentries other =
      { sit.sentries other with
        type := if other = segno then type else (sit.sentries other).type } := by
  have typed : (setSitEntryType type segno modified sit).sentries =
      Function.update sit.sentries segno { sit.sentries segno with type := type } := by
    unfold setSitEntryType
    split <;> simp
  rw [typed]
  by_cases same : other = segno
  · subst same
    simp
  · simp [same]

theorem consistent_switched {sbi : Sbi} {pending : Set Nat} {ready : Set CursegType}
    {state next : State} {type : CursegType} {segno : Nat}
    (consistent : Consistent sbi pending ready state) (inMain : segno < sbi.mainSegments)
    (notCurrent : isCurseg state segno = false)
    (switched : Switched sbi type segno state next) :
    Consistent sbi (insert (state.curseg type).segno pending) (ready \ {type}) next := by
  have current_ne : ∀ other, (state.curseg other).segno ≠ segno :=
    fun other equal => isCurseg_eq_false_iff.mp notCurrent other equal.symm
  have target_eq : ∀ other,
      (next.sit.sentries other).targetMap = (state.sit.sentries other).targetMap := by
    intro other
    rw [switched.sit, sentries_setSitEntryType]
    rfl
  have type_eq : ∀ other ≠ segno,
      (next.sit.sentries other).type = (state.sit.sentries other).type := by
    intro other ne
    rw [switched.sit, sentries_setSitEntryType]
    simp [ne]
  have valid_eq : ∀ other,
      (next.sit.sentries other).validBlocks = (state.sit.sentries other).validBlocks := by
    intro other
    rw [switched.sit, sentries_setSitEntryType]
  have used_iff : ∀ other ≠ segno,
      next.free.freeSegmap other = state.free.freeSegmap other := by
    intro other ne
    rw [switched.segmap, BitMap.set_of_ne ne]
  have ne_of_free : ∀ other, next.free.freeSegmap other = false → other ≠ segno := by
    rintro other free rfl
    rw [switched.segmap, BitMap.set_self] at free
    cases free
  have ne_of_notCurrent : ∀ other, isCurseg next other = false → other ≠ segno := by
    rintro other away rfl
    exact isCurseg_eq_false_iff.mp away type switched.moved.symm
  have was_current : ∀ other, isCurseg next other = false → isCurseg state other = true →
      other = (state.curseg type).segno := by
    intro other away current
    obtain ⟨log, rfl⟩ := isCurseg_iff.mp current
    by_cases same : log = type
    · rw [same]
    · have moved := isCurseg_eq_false_iff.mp away log
      rw [switched.others log same] at moved
      exact absurd rfl moved
  have own : ∀ other ≠ segno, ∀ lists, OwnLog (state.sit.sentries other) lists →
      OwnLog (next.sit.sentries other) lists := by
    intro other ne lists own log
    rw [type_eq other ne]
    exact own log
  refine
    { sit := ?_, counted := switched.lists.counted, secmap := switched.secmap, typed := ?_
      inMain := ?_, distinct := ?_, used := ?_, ownType := ?_, unlisted := ?_, freeUnlisted := ?_
      freeEmpty := ?_, stale := ?_, listed := ?_, cursors := ?_
      quiet := switched.quiet consistent.quiet, journal := ?_ }
  · rw [switched.sit]
    exact accounted_setSitEntryType inMain consistent.sit
  · intro other inMain'
    by_cases same : other = segno
    · refine ⟨type, ?_⟩
      rw [switched.sit, sentries_setSitEntryType, same]
      simp
    · rw [type_eq other same]
      exact consistent.typed other inMain'
  · intro log
    by_cases same : log = type
    · rw [same, switched.moved]
      exact inMain
    · rw [switched.others log same]
      exact consistent.inMain log
  · intro left right equal
    by_cases isLeft : left = type
    · by_cases isRight : right = type
      · rw [isLeft, isRight]
      · rw [isLeft, switched.moved, switched.others right isRight] at equal
        exact absurd equal.symm (current_ne right)
    · by_cases isRight : right = type
      · rw [isRight, switched.moved, switched.others left isLeft] at equal
        exact absurd equal (current_ne left)
      · rw [switched.others left isLeft, switched.others right isRight] at equal
        exact consistent.distinct left right equal
  · intro log
    by_cases same : log = type
    · rw [same, switched.moved, switched.segmap, BitMap.set_self]
    · rw [switched.others log same, used_iff _ (current_ne log)]
      exact consistent.used log
  · intro log
    by_cases same : log = type
    · rw [same, switched.moved, switched.sit, sentries_setSitEntryType]
      simp
    · rw [switched.others log same, type_eq _ (current_ne log)]
      exact consistent.ownType log
  · intro log
    by_cases same : log = type
    · rw [same, switched.moved]
      exact switched.unlisted
    · rw [switched.others log same, switched.lists.others _ (current_ne log)]
      exact consistent.unlisted log
  · intro other inMain' free
    have ne := ne_of_free other free
    rw [switched.lists.others other ne]
    exact consistent.freeUnlisted other inMain' (used_iff other ne ▸ free)
  · intro other inMain' free
    rw [target_eq]
    exact consistent.freeEmpty other inMain' (used_iff other (ne_of_free other free) ▸ free)
  · intro other inMain' inUse away mem
    have ne := ne_of_notCurrent other away
    rw [switched.lists.others other ne]
    cases current : isCurseg state other with
    | true =>
        obtain rfl := was_current other away current
        exact (consistent.unlisted type).stale
    | false =>
        have old_ne : other ≠ (state.curseg type).segno :=
          isCurseg_eq_false_iff.mp current type
        have stale := consistent.stale other inMain' (used_iff other ne ▸ inUse) current
          (Set.mem_of_mem_insert_of_ne mem old_ne)
        exact ⟨stale.pre, own other ne _ stale.log⟩
  · intro other inMain' inUse away absent
    have ne := ne_of_notCurrent other away
    have old_ne : other ≠ (state.curseg type).segno := by
      rintro rfl
      exact absent (Set.mem_insert _ _)
    have notCurrent' : isCurseg state other = false := by
      by_contra current
      exact old_ne (was_current other away (by simpa using current))
    rw [switched.lists.others other ne]
    have listed := consistent.listed other inMain' (used_iff other ne ▸ inUse) notCurrent'
      fun mem => absent (Set.mem_insert_of_mem _ mem)
    refine ⟨?_, ?_, own other ne _ listed.log⟩
    · rw [valid_eq]
      exact listed.pre
    · rw [valid_eq]
      exact listed.dirty
  · intro log mem
    obtain ⟨inside, here, behind⟩ := consistent.cursors log mem.1
    have same : next.curseg log = state.curseg log := switched.others log mem.2
    refine ⟨by rw [same]; exact inside, by rw [same, target_eq]; exact here, ?_⟩
    rw [same]
    intro lfs offset inSegment from_cursor
    rw [target_eq]
    exact behind lfs offset inSegment from_cursor
  · by_cases same : CursegType.coldData = type
    · subst same
      exact switched.journal consistent.journal
    · rw [switched.others _ same]
      exact consistent.journal

end F2fs
end StorageStack
