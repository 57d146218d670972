import StorageStack.F2fs.Consistency

/-!
# Allocation keeps the invariant

The steps of a block allocation, from the choice of a segment to the update of the validity maps,
and the operations made of them.
-/

namespace StorageStack
namespace F2fs

variable {sbi : Sbi} {pending : Set Nat} {ready : Set CursegType} {state next : State}
  {type : CursegType}

/-! ## A new segment for a log -/

/-- The log has moved from its segment to one which was not current. -/
structure Moved (sbi : Sbi) (type : CursegType) (state next : State) : Prop where
  inMain : (next.curseg type).segno < sbi.mainSegments
  notCurrent : isCurseg state (next.curseg type).segno = false
  switched : Switched sbi type (next.curseg type).segno state next

theorem Moved.consistent (moved : Moved sbi type state next)
    (consistent : Consistent sbi pending ready state) :
    Consistent sbi (insert (state.curseg type).segno pending) (ready \ {type}) next :=
  consistent_switched consistent moved.inMain moved.notCurrent moved.switched

theorem targetMap_setSitEntryType (number segno other : Nat) (modified : Bool) (sit : SitInfo) :
    ((setSitEntryType number segno modified sit).sentries other).targetMap =
      (sit.sentries other).targetMap := by
  rw [sentries_setSitEntryType]
  rfl

@[simp] theorem writeSumPage_free (type : CursegType) (state : State) :
    (writeSumPage type state).free = state.free := rfl

@[simp] theorem writeSumPage_curseg (type : CursegType) (state : State) :
    (writeSumPage type state).curseg = state.curseg := rfl

theorem resetCurseg_eq {modified : Bool}
    (inMain : (state.curseg type).nextSegno < sbi.mainSegments) :
    resetCurseg sbi type modified state = some
      { state.setCurseg type
          { state.curseg type with
            segno := (state.curseg type).nextSegno
            zone := sbi.getZonenoFromSegno (state.curseg type).nextSegno
            nextBlkoff := 0
            nextSegno := nullSegno
            sumBlk :=
              { (state.curseg type).sumBlk with
                entryType := if type.isDataseg then .data else .node } } with
        sit := setSitEntryType type.toNat (state.curseg type).nextSegno modified state.sit } := by
  simp only [resetCurseg]
  rw [if_neg (by omega)]

/-- `new_curseg` moves the log to a free segment, whose blocks are all free. -/
theorem newCurseg_moved {newSec : Bool} (consistent : Consistent sbi pending ready state)
    (changed : newCurseg sbi type newSec state = some next) :
    Moved sbi type state next ∧ CursorReady sbi next type := by
  simp only [newCurseg, getNewSegment, Option.bind_eq_some_iff, Option.map_eq_some_iff] at changed
  obtain ⟨_, ⟨segno, found, rfl⟩, reset, resetted, rfl⟩ := changed
  obtain ⟨inMain, free⟩ := findNewSegment_free consistent.secmap (consistent.inMain type) found
  have free' : state.free.freeSegmap segno = false := free
  have unwarned : bugOn .getNewSegment ((writeSumPage type state).free.freeSegmap segno)
      (writeSumPage type state) = writeSumPage type state := by
    rw [bugOn, if_neg (by simpa using free)]
  simp only [unwarned] at resetted
  rw [resetCurseg_eq (by simpa using inMain)] at resetted
  obtain rfl := Option.some.inj resetted
  have notCurrent : isCurseg state segno = false := by
    rw [isCurseg_eq_false_iff]
    rintro log rfl
    simp [consistent.used log] at free'
  have unlisted : Unlisted (listsOf state.dirty segno) :=
    consistent.freeUnlisted segno inMain free'
  refine ⟨⟨?_, ?_, ?_⟩, ?_⟩
  · simpa using inMain
  · simpa using notCurrent
  · refine
      { segmap := ?_, secmap := secmapFree_setInuse segno consistent.secmap
        lists := ⟨consistent.counted, fun _ _ => rfl⟩, unlisted := ?_, sit := ?_, moved := rfl
        others := ?_, journal := ?_, quiet := id, porDoing := rfl }
    · simp [setInuse, State.setCurseg]
    · simpa [State.setCurseg, writeSumPage] using unlisted
    · simp [State.setCurseg, writeSumPage]
    · intro other ne
      simp [State.setCurseg, ne]
    · intro bounded
      exact ⟨by simpa using bounded.fits, by simpa using bounded.inMain⟩
  · refine ⟨by simpa using sbi.blocksPerSeg_pos, ?_, fun _ offset inSegment _ => ?_⟩
    · simpa [State.setCurseg, writeSumPage, targetMap_setSitEntryType] using
        consistent.freeEmpty segno inMain free' 0 sbi.blocksPerSeg_pos
    · simpa [State.setCurseg, writeSumPage, targetMap_setSitEntryType] using
        consistent.freeEmpty segno inMain free' offset inSegment

/-! ## A partly used segment for a log -/

theorem ownLog_of_notCurrent (consistent : Consistent sbi pending ready state) {segno : Nat}
    (inMain : segno < sbi.mainSegments) (notCurrent : isCurseg state segno = false) :
    OwnLog (state.sit.sentries segno) (listsOf state.dirty segno) := by
  cases inUse : state.free.freeSegmap segno with
  | false => exact (consistent.freeUnlisted segno inMain inUse).stale.log
  | true =>
      by_cases mem : segno ∈ pending
      · exact (consistent.stale segno inMain inUse notCurrent mem).log
      · exact (consistent.listed segno inMain inUse notCurrent mem).log

/-- `change_curseg` takes the segment off all its lists, moves the log to it, and puts the cursor on
its first free block. -/
theorem changeCurseg_moved {reuse : Bool} (consistent : Consistent sbi pending ready state)
    (notCurrent : isCurseg state (state.curseg type).nextSegno = false)
    (changed : changeCurseg sbi type reuse state = some next) :
    Moved sbi type state next ∧ (next.curseg type).segno = (state.curseg type).nextSegno ∧
      (next.curseg type).allocType = .ssr ∧
      (next.curseg type).nextBlkoff =
        (state.sit.sentries (state.curseg type).nextSegno).targetMap.findNextZeroBit
          sbi.blocksPerSeg 0 := by
  have inMain : (state.curseg type).nextSegno < sbi.mainSegments := by
    by_contra outside
    rw [changeCurseg, if_pos (by omega)] at changed
    cases changed
  obtain ⟨log, type_eq⟩ := consistent.typed _ inMain
  have own := ownLog_of_notCurrent consistent inMain notCurrent
  have current_ne : ∀ other, (state.curseg other).segno ≠ (state.curseg type).nextSegno :=
    fun other equal => isCurseg_eq_false_iff.mp notCurrent other equal.symm
  generalize segno_eq : (state.curseg type).nextSegno = segno at *
  obtain ⟨dirty, removed, frame, lists⟩ := removeDirtyType_dirty
    { writeSumPage type state with
      free := setTestAndInuse sbi segno state.free
      dirty := dropDirty .pre segno state.dirty }
    inMain (counted_dropDirty .pre inMain consistent.counted) type_eq
  simp only [changeCurseg, segno_eq] at changed
  rw [if_neg (by omega)] at changed
  simp only [removeDirtyType_pre, Option.bind_some, writeSumPage] at changed removed
  rw [removed] at changed
  simp only [Option.bind_some] at changed
  rw [resetCurseg_eq (by simpa [segno_eq] using inMain)] at changed
  simp only [Option.map_some, Option.some_inj, segno_eq] at changed
  have unlisted : Unlisted (listsOf dirty segno) := by
    intro list
    rw [lists]
    split
    · rfl
    · next other =>
        push Not at other
        cases list with
        | dirty => exact absurd rfl other.1
        | pre => simp [listsOf, dirtySegmap_dropDirty]
        | log log' =>
            have absent := own.other type_eq fun same => other.2 (congrArg DirtyType.log same)
            simpa [listsOf, dirtySegmap_dropDirty] using absent
  have others : ∀ other ≠ segno, listsOf dirty other = listsOf state.dirty other := by
    intro other ne
    rw [frame.others other ne]
    funext list
    simp [listsOf, dirtySegmap_dropDirty, ne]
  have moved_eq : (next.curseg type).segno = segno := by
    rw [← changed]
    split <;> simp [nextFreeBlkoff]
  refine ⟨⟨?_, ?_, ?_⟩, moved_eq, ?_, ?_⟩
  · rw [moved_eq]
    exact inMain
  · rw [moved_eq]
    exact notCurrent
  · rw [moved_eq]
    refine
      { segmap := ?_, secmap := ?_, lists := ⟨?_, ?_⟩, unlisted := ?_, sit := ?_, moved := moved_eq
        others := ?_, journal := ?_, quiet := ?_, porDoing := ?_ }
    · rw [← changed]
      split <;> simp [nextFreeBlkoff, State.setCurseg, freeSegmap_setTestAndInuse]
    · have secmap := secmapFree_setTestAndInuse segno consistent.secmap
      rw [← changed]
      split <;> simpa [nextFreeBlkoff, State.setCurseg] using secmap
    · rw [← changed]
      split <;> exact frame.counted
    · rw [← changed]
      split <;> exact others
    · rw [← changed]
      split <;> exact unlisted
    · rw [← changed]
      split <;> rfl
    · intro other ne
      rw [← changed]
      split <;> simp [nextFreeBlkoff, State.setCurseg, ne]
    · intro bounded
      rw [← changed]
      split <;> exact ⟨by simpa [nextFreeBlkoff] using bounded.fits,
        by simpa [nextFreeBlkoff] using bounded.inMain⟩
    · rw [← changed]
      split <;> exact id
    · rw [← changed]
      split <;> rfl
  · rw [← changed]
    split <;> simp [nextFreeBlkoff]
  · rw [← changed]
    split <;> simp [nextFreeBlkoff, State.setCurseg, targetMap_setSitEntryType]

/-- The cursor `change_curseg` finds is ready when the segment has a block free in both maps. -/
theorem changeCurseg_ready {reuse : Bool} (consistent : Consistent sbi pending ready state)
    (notCurrent : isCurseg state (state.curseg type).nextSegno = false)
    (room : (state.sit.sentries (state.curseg type).nextSegno).ckptValidBlocks <
      sbi.blocksPerSeg)
    (changed : changeCurseg sbi type reuse state = some next) : CursorReady sbi next type := by
  obtain ⟨moved, segno_eq, alloc_eq, blkoff_eq⟩ := changeCurseg_moved consistent notCurrent changed
  have inMain := moved.inMain
  rw [segno_eq] at inMain
  have target_eq : (next.sit.sentries (state.curseg type).nextSegno).targetMap =
      (state.sit.sentries (state.curseg type).nextSegno).targetMap := by
    rw [moved.switched.sit, targetMap_setSitEntryType]
  rw [(consistent.sit.entry _ inMain).ckpt, BitMap.popCount_lt_iff] at room
  obtain ⟨offset, inSegment, free⟩ := room
  have found : (state.sit.sentries (state.curseg type).nextSegno).targetMap.findNextZeroBit
      sbi.blocksPerSeg 0 < sbi.blocksPerSeg :=
    BitMap.findNext_lt_iff.mpr ⟨offset, Nat.zero_le _, inSegment, free⟩
  refine ⟨by rw [blkoff_eq]; exact found, ?_, fun lfs => ?_⟩
  · rw [segno_eq, target_eq, blkoff_eq]
    exact BitMap.findNext_found found
  · rw [alloc_eq] at lfs
    cases lfs

/-! ## Victims -/

/-- A segment `get_victim_by_default` may return for slack space recycling. -/
def SsrVictim (sbi : Sbi) (state : State) (segno : Nat) : Prop :=
  segno < sbi.mainSegments ∧ (∃ list, state.dirty.dirtySegmap list segno = true) ∧
    (state.sit.sentries segno).ckptValidBlocks < sbi.blocksPerSeg

theorem scanVictims_victim (maxSearch : Nat) {segnos : List Nat} (search : VictimSearch)
    (candidates : ∀ segno ∈ segnos, segno < sbi.mainSegments ∧
      ∃ list, state.dirty.dirtySegmap list segno = true)
    (cost : search.minCost ≤ sbi.blocksPerSeg)
    (victim : ∀ segno, search.minSegno = some segno → SsrVictim sbi state segno) :
    (scanVictims sbi state maxSearch segnos search).minCost ≤ sbi.blocksPerSeg ∧
      ∀ segno, (scanVictims sbi state maxSearch segnos search).minSegno = some segno →
        SsrVictim sbi state segno := by
  induction segnos generalizing search with
  | nil => exact ⟨cost, victim⟩
  | cons segno segnos ih =>
      have rest : ∀ other ∈ segnos, other < sbi.mainSegments ∧
          ∃ list, state.dirty.dirtySegmap list other = true :=
        fun other mem => candidates other (by simp [mem])
      obtain ⟨inMain, inList⟩ := candidates segno (by simp)
      have better : (state.sit.sentries segno).ckptValidBlocks < search.minCost →
          SsrVictim sbi state segno :=
        fun cheaper => ⟨inMain, inList, by omega⟩
      simp only [scanVictims]
      split
      · exact ih search rest cost victim
      · split
        · exact ih search rest cost victim
        · split
          · next cheaper =>
              have chosen : ∀ other, some segno = some other → SsrVictim sbi state other := by
                intro other equal
                exact Option.some.inj equal ▸ better cheaper
              split
              · exact ⟨by simp only; omega, chosen⟩
              · exact ih _ rest (by simp only; omega) chosen
          · split
            · exact ⟨cost, victim⟩
            · exact ih _ rest cost victim

theorem getVictimByDefault_victim {log : CursegType} {found : State} {segno : Nat}
    (victim : getVictimByDefault sbi log state = (found, some segno)) :
    SsrVictim sbi state segno := by
  have candidates : ∀ other ∈ (state.dirty.dirtySegmap (.log log)).setBits sbi.mainSegments,
      other < sbi.mainSegments ∧ ∃ list, state.dirty.dirtySegmap list other = true := by
    intro other mem
    obtain ⟨inMain, isSet⟩ := BitMap.mem_setBits.mp mem
    exact ⟨inMain, _, isSet⟩
  let maxSearch := min (state.dirty.nrDirty (.log log)) sbi.maxVictimSearch
  have later : ∀ other ∈ ((state.dirty.dirtySegmap (.log log)).setBits sbi.mainSegments).filter
      fun segno => decide (state.lastVictim ≤ segno), other < sbi.mainSegments ∧
        ∃ list, state.dirty.dirtySegmap list other = true :=
    fun other mem => candidates other (List.mem_filter.mp mem).1
  have first := scanVictims_victim maxSearch ⟨none, sbi.blocksPerSeg, 0, none⟩ later
    (le_refl _) (by simp)
  have second := scanVictims_victim maxSearch _ candidates first.1 first.2
  simp only [getVictimByDefault] at victim
  split at victim
  · exact first.2 segno (congrArg Prod.snd victim)
  · split at victim
    · exact first.2 segno (congrArg Prod.snd victim)
    · exact second.2 segno (congrArg Prod.snd victim)

theorem getVictimByDefault_frame (sbi : Sbi) (state : State) (log : CursegType) :
    ∃ lastVictim, (getVictimByDefault sbi log state).1 =
      { state with lastVictim := lastVictim } := by
  simp only [getVictimByDefault]
  split
  · exact ⟨_, rfl⟩
  · split
    · exact ⟨_, rfl⟩
    · exact ⟨_, rfl⟩

/-- `get_ssr_segment` changes nothing but the position of the search and `next_segno` of the log,
which is a victim when it succeeds. -/
theorem firstVictim_spec (sbi : Sbi) (state : State) (type : CursegType)
    (logs : List CursegType) :
    (∃ lastVictim, firstVictim sbi type logs state =
        ({ state with lastVictim := lastVictim }, false)) ∨
      ∃ lastVictim segno, SsrVictim sbi state segno ∧ firstVictim sbi type logs state =
        (({ state with lastVictim := lastVictim }).setCurseg type
          { state.curseg type with nextSegno := segno }, true) := by
  induction logs generalizing state with
  | nil => exact .inl ⟨state.lastVictim, rfl⟩
  | cons log logs ih =>
      obtain ⟨lastVictim, frame⟩ := getVictimByDefault_frame sbi state log
      cases searched : getVictimByDefault sbi log state with
      | mk found victim =>
          rw [searched] at frame
          simp only at frame
          subst frame
          cases victim with
          | none =>
              simp only [firstVictim, searched]
              rcases ih { state with lastVictim := lastVictim } with
                ⟨last, failed⟩ | ⟨last, segno, victim, success⟩
              · exact .inl ⟨last, failed⟩
              · exact .inr ⟨last, segno, victim, success⟩
          | some segno =>
              exact .inr ⟨lastVictim, segno, getVictimByDefault_victim searched,
                by simp only [firstVictim, searched]⟩

theorem notCurrent_of_victim (consistent : Consistent sbi pending ready state) {segno : Nat}
    (victim : SsrVictim sbi state segno) : isCurseg state segno = false := by
  obtain ⟨_, ⟨list, inList⟩, _⟩ := victim
  rw [isCurseg_eq_false_iff]
  rintro log rfl
  have absent : state.dirty.dirtySegmap list (state.curseg log).segno = false :=
    consistent.unlisted log list
  simp [inList] at absent

/-- Changes of a log that leave it on its segment keep the invariant, apart from its cursor. -/
theorem consistent_setCurseg (consistent : Consistent sbi pending ready state) {curseg : Curseg}
    {ready' : Set CursegType} (segno_eq : curseg.segno = (state.curseg type).segno)
    (journal : JournalBounded sbi (state.curseg type).sumBlk → JournalBounded sbi curseg.sumBlk)
    (others : ∀ other ∈ ready', other ≠ type → other ∈ ready)
    (own : type ∈ ready' → CursorReady sbi (state.setCurseg type curseg) type) :
    Consistent sbi pending ready' (state.setCurseg type curseg) := by
  have segnos : ∀ other, ((state.setCurseg type curseg).curseg other).segno =
      (state.curseg other).segno := by
    intro other
    by_cases same : other = type
    · rw [same, setCurseg_self, segno_eq]
    · rw [setCurseg_of_ne same]
  have current_eq : ∀ segno,
      isCurseg (state.setCurseg type curseg) segno = isCurseg state segno := by
    intro segno
    simp only [isCurseg, segnos]
  refine
    { sit := consistent.sit, counted := consistent.counted, secmap := consistent.secmap
      typed := consistent.typed, inMain := ?_, distinct := ?_, used := ?_, ownType := ?_
      unlisted := ?_, freeUnlisted := consistent.freeUnlisted, freeEmpty := consistent.freeEmpty
      stale := ?_, listed := ?_, cursors := ?_, quiet := consistent.quiet, journal := ?_ }
  · intro other
    rw [segnos]
    exact consistent.inMain other
  · intro left right
    rw [segnos, segnos]
    exact consistent.distinct left right
  · intro other
    rw [segnos]
    exact consistent.used other
  · intro other
    rw [segnos]
    exact consistent.ownType other
  · intro other
    rw [segnos]
    exact consistent.unlisted other
  · intro segno inMain inUse away
    rw [current_eq] at away
    exact consistent.stale segno inMain inUse away
  · intro segno inMain inUse away
    rw [current_eq] at away
    exact consistent.listed segno inMain inUse away
  · intro other mem
    by_cases same : other = type
    · subst same
      exact own mem
    · obtain ⟨inside, here, behind⟩ := consistent.cursors other (others other mem same)
      have unchanged : (state.setCurseg type curseg).curseg other = state.curseg other :=
        setCurseg_of_ne same
      exact ⟨by rw [unchanged]; exact inside, by rw [unchanged]; exact here,
        by rw [unchanged]; exact behind⟩
  · by_cases same : CursegType.coldData = type
    · subst same
      rw [setCurseg_self]
      exact journal consistent.journal
    · rw [setCurseg_of_ne same]
      exact consistent.journal

theorem consistent_lastVictim (consistent : Consistent sbi pending ready state)
    (lastVictim : Nat) :
    Consistent sbi pending ready { state with lastVictim := lastVictim } :=
  { consistent with
    cursors := fun type mem =>
      have ready := consistent.cursors type mem
      ⟨ready.inSegment, ready.here, ready.behind⟩ }

/-- A move after the victim has been written down is a move of the log as it was before. -/
theorem moved_of_retargeted {lastVictim segno : Nat}
    (moved : Moved sbi type (({ state with lastVictim := lastVictim }).setCurseg type
      { state.curseg type with nextSegno := segno }) next) : Moved sbi type state next := by
  obtain ⟨inMain, notCurrent, switched⟩ := moved
  refine ⟨inMain, ?_, { switched with others := ?_, journal := ?_ }⟩
  · rw [isCurseg_eq_false_iff] at notCurrent ⊢
    intro other
    by_cases same : other = type
    · subst same
      simpa using notCurrent other
    · simpa [State.setCurseg, same] using notCurrent other
  · intro other ne
    rw [switched.others other ne, setCurseg_of_ne ne]
  · intro bounded
    exact switched.journal (by simpa using bounded)

theorem moved_of_lastVictim {lastVictim : Nat}
    (moved : Moved sbi type { state with lastVictim := lastVictim } next) :
    Moved sbi type state next :=
  ⟨moved.inMain, moved.notCurrent, { moved.switched with }⟩

/-- `allocate_segment_by_default` moves the log, and its cursor is ready afterwards. -/
theorem allocateSegmentByDefault_moved {env : Env} {force : Bool}
    (consistent : Consistent sbi pending ready state)
    (allocated : allocateSegmentByDefault sbi env type force state = some next) :
    Moved sbi type state next ∧ CursorReady sbi next type := by
  unfold allocateSegmentByDefault at allocated
  split_ifs at allocated
  · exact newCurseg_moved consistent allocated
  · exact newCurseg_moved consistent allocated
  · exact newCurseg_moved consistent allocated
  · rcases firstVictim_spec sbi state type (ssrLogs sbi env state type) with ⟨lastVictim, failed⟩ | ⟨lastVictim, segno, victim, success⟩
    · rw [getSsrSegment, failed] at allocated
      obtain ⟨moved, cursor⟩ :=
        newCurseg_moved (consistent_lastVictim consistent lastVictim) allocated
      exact ⟨moved_of_lastVictim moved, cursor⟩
    · rw [getSsrSegment, success] at allocated
      have retargeted : Consistent sbi pending (ready \ {type})
          (({ state with lastVictim := lastVictim }).setCurseg type
            { state.curseg type with nextSegno := segno }) :=
        consistent_setCurseg (consistent_lastVictim consistent lastVictim) rfl id
          (fun _ mem _ => mem.1) (fun mem => absurd rfl mem.2)
      have notCurrent := notCurrent_of_victim consistent victim
      have notCurrent' : isCurseg (({ state with lastVictim := lastVictim }).setCurseg type
          { state.curseg type with nextSegno := segno }) segno = false := by
        rw [isCurseg_eq_false_iff] at notCurrent ⊢
        intro other
        by_cases same : other = type
        · subst same
          simpa using notCurrent other
        · simpa [State.setCurseg, same] using notCurrent other
      obtain ⟨moved, _⟩ := changeCurseg_moved retargeted (by simpa using notCurrent') allocated
      refine ⟨moved_of_retargeted moved, ?_⟩
      exact changeCurseg_ready retargeted (by simpa using notCurrent')
        (by simpa [State.setCurseg] using victim.2.2) allocated
  · exact newCurseg_moved consistent allocated

theorem newCurseg_nextBlkoff {newSec : Bool} (changed : newCurseg sbi type newSec state = some next) :
    (next.curseg type).nextBlkoff = 0 := by
  simp only [newCurseg, Option.bind_eq_some_iff, Option.map_eq_some_iff] at changed
  obtain ⟨_, _, reset, resetted, rfl⟩ := changed
  simp only [resetCurseg, Option.ite_none_left_eq_some] at resetted
  obtain rfl := Option.some.inj resetted.2
  simp

/-- With the disaggregated mapping a new segment is written from its first block on. -/
theorem allocateSegmentByDefault_nextBlkoff {env : Env} {force : Bool}
    (da : sbi.f2fsDaMap = true)
    (allocated : allocateSegmentByDefault sbi env type force state = some next) :
    (next.curseg type).nextBlkoff = 0 := by
  unfold allocateSegmentByDefault at allocated
  rw [if_neg (show ¬ (sbi.f2fsDaMap = false ∧ needSsr sbi env state = true) by simp [da])]
    at allocated
  split_ifs at allocated
  all_goals exact newCurseg_nextBlkoff allocated

end F2fs
end StorageStack
