import StorageStack.F2fs.SegmentLists

/-!
# Current segments

How a log gets its next segment: the search for a free segment in `get_new_segment`, the change to a
free segment in `new_curseg`, and the change to a partly used segment in `change_curseg`, which then
looks for free blocks in the union of the current and the checkpointed validity map.
-/

namespace StorageStack
namespace F2fs

/-- What the page cache and the clock contribute to an operation. -/
structure Env where
  /-- `get_mtime`. -/
  mtime : Nat
  /-- `get_blocktype_secs(sbi, F2FS_DIRTY_NODES)`. -/
  nodeSecs : Nat
  /-- `get_blocktype_secs(sbi, F2FS_DIRTY_DENTS)`. -/
  dentSecs : Nat
  deriving DecidableEq, Repr

/-! ## A free segment -/

/-- `is_next_segment_free`. -/
def isNextSegmentFree (sbi : Sbi) (state : State) (type : CursegType) : Bool :=
  let segno := (state.curseg type).segno + 1
  if segno < sbi.mainSegments ∧ segno % sbi.segsPerSec ≠ 0 then !state.free.freeSegmap segno
  else false

/-- The values of `secno`, `go_left` and `left_start` at the label `skip_left`. -/
structure SectionSearch where
  secno : Nat
  goLeft : Bool
  leftStart : Nat
  deriving DecidableEq, Repr

/-- The loop over `left_start`; when it reaches a used section 0 it searches from there. -/
def walkLeft (sbi : Sbi) (secmap : BitMap) : Nat → Nat
  | 0 => if secmap 0 then secmap.findNextZeroBit sbi.totalSections 0 else 0
  | leftStart + 1 =>
      if secmap (leftStart + 1) then walkLeft sbi secmap leftStart else leftStart + 1

/-- The search to the right after `find_other_zone`, and where it gives up. -/
def searchRight (sbi : Sbi) (secmap : BitMap) (dir : AllocDir) (hint : Nat) (goLeft : Bool)
    (leftStart : Nat) : SectionSearch :=
  let secno := secmap.findNextZeroBit sbi.totalSections hint
  if sbi.totalSections ≤ secno then
    if dir = .right then ⟨secmap.findNextZeroBit sbi.totalSections 0, goLeft, leftStart⟩
    else ⟨secno, true, sub32 hint 1⟩
  else ⟨secno, goLeft, leftStart⟩

/-- The search to the left when `go_left` is set. -/
def searchLeft (sbi : Sbi) (secmap : BitMap) (search : SectionSearch) : Option SectionSearch :=
  if search.goLeft then
    if sbi.totalSections ≤ search.leftStart then none
    else
      let leftStart := walkLeft sbi secmap search.leftStart
      some { search with secno := leftStart, leftStart := leftStart }
  else some search

/-- From `find_other_zone` to `skip_left`.  Without a free section the source warns and goes on with
a number outside the maps, which has no result here. -/
def findSection (sbi : Sbi) (secmap : BitMap) (dir : AllocDir) (hint : Nat) (goLeft : Bool)
    (leftStart : Nat) : Option SectionSearch :=
  (searchLeft sbi secmap (searchRight sbi secmap dir hint goLeft leftStart)).filter
    fun search => search.secno < sbi.totalSections

/-- `CURSEG_I(sbi, i)->zone == zoneno` for some log. -/
def zoneInUse (state : State) (zoneno : Nat) : Bool :=
  CursegType.all.any fun type => (state.curseg type).zone == zoneno

/-- The `hint` with which `get_new_segment` leaves a zone in use. -/
def otherZoneHint (sbi : Sbi) (goLeft : Bool) (zoneno : Nat) : Nat :=
  if goLeft then zoneno * sbi.secsPerZone - 1
  else if sbi.totalSections / sbi.secsPerZone ≤ zoneno + 1 then 0
  else (zoneno + 1) * sbi.secsPerZone

/-- The section `get_new_segment` takes when it looks for one. -/
def findNewSection (sbi : Sbi) (state : State) (newseg : Nat) (dir : AllocDir) : Option Nat :=
  let secmap := state.free.freeSecmap
  let totalZones := sbi.totalSections / sbi.secsPerZone
  let hint := newseg / sbi.segsPerSec
  let oldZoneno := sbi.getZonenoFromSegno newseg
  (findSection sbi secmap dir hint false hint).bind fun first =>
    let zoneno := first.secno / sbi.secsPerZone
    if sbi.secsPerZone = 1 then some first.secno
    else if zoneno = oldZoneno then some first.secno
    else if dir = .left ∧ ((first.goLeft = false ∧ totalZones ≤ zoneno + 1) ∨
        (first.goLeft = true ∧ zoneno = 0)) then some first.secno
    else if zoneInUse state zoneno then
      (findSection sbi secmap dir (otherZoneHint sbi first.goLeft zoneno) first.goLeft
        first.leftStart).map SectionSearch.secno
    else some first.secno

/-- The segment `get_new_segment` takes: the next free one of the same section, or the first one of
another section. -/
def findNewSegment (sbi : Sbi) (state : State) (newseg : Nat) (newSec : Bool) (dir : AllocDir) :
    Option Nat :=
  let next := state.free.freeSegmap.findNextZeroBit sbi.mainSegments (newseg + 1)
  if newSec = false ∧ (newseg + 1) % sbi.segsPerSec ≠ 0 ∧
      next - newseg < sbi.segsPerSec - newseg % sbi.segsPerSec then
    some next
  else (findNewSection sbi state newseg dir).map fun secno => secno * sbi.segsPerSec

/-- `get_new_segment`. -/
def getNewSegment (sbi : Sbi) (newseg : Nat) (newSec : Bool) (dir : AllocDir) (state : State) :
    Option (State × Nat) :=
  (findNewSegment sbi state newseg newSec dir).map fun segno =>
    let warned := bugOn .getNewSegment (state.free.freeSegmap segno) state
    ({ warned with free := setInuse sbi segno warned.free }, segno)

/-- `reset_curseg`. -/
def resetCurseg (sbi : Sbi) (type : CursegType) (modified : Bool) (state : State) :
    Option State :=
  let curseg := state.curseg type
  let segno := curseg.nextSegno
  if sbi.mainSegments ≤ segno then none
  else
    let reset :=
      { curseg with
        segno := segno
        zone := sbi.getZonenoFromSegno segno
        nextBlkoff := 0
        nextSegno := nullSegno
        sumBlk :=
          { curseg.sumBlk with entryType := if type.isDataseg then .data else .node } }
    some
      { state.setCurseg type reset with
        sit := setSitEntryType type.toNat segno modified state.sit }

/-- `write_sum_page` of the log's summary block to the block of its segment. -/
def writeSumPage (type : CursegType) (state : State) : State :=
  let curseg := state.curseg type
  { state with sumPages := Function.update state.sumPages curseg.segno curseg.sumBlk }

/-- `new_curseg`. -/
def newCurseg (sbi : Sbi) (type : CursegType) (newSec : Bool) (state : State) : Option State :=
  let segno := (state.curseg type).segno
  let dir : AllocDir :=
    if type = .warmData ∨ type = .coldData ∨ sbi.noheap then .right else .left
  (getNewSegment sbi segno newSec dir (writeSumPage type state)).bind fun (state, segno) =>
    (resetCurseg sbi type true
        (state.setCurseg type { state.curseg type with nextSegno := segno })).map fun state =>
      state.setCurseg type { state.curseg type with allocType := .lfs }

/-! ## A partly used segment -/

/-- The blocks which are valid now or in the last checkpoint. -/
def SegEntry.targetMap (se : SegEntry) : BitMap := se.curValidMap.union se.ckptValidMap

/-- `__next_free_blkoff`. -/
def nextFreeBlkoff (sbi : Sbi) (type : CursegType) (start : Nat) (state : State) : State :=
  let curseg := state.curseg type
  let target := (state.sit.sentries curseg.segno).targetMap
  state.setCurseg type
    { curseg with nextBlkoff := target.findNextZeroBit sbi.blocksPerSeg start }

/-- `__refresh_next_blkoff`. -/
def refreshNextBlkoff (sbi : Sbi) (type : CursegType) (state : State) : State :=
  let curseg := state.curseg type
  match curseg.allocType with
  | .ssr => nextFreeBlkoff sbi type (curseg.nextBlkoff + 1) state
  | .lfs => state.setCurseg type { curseg with nextBlkoff := curseg.nextBlkoff + 1 }

/-- `change_curseg`, after `next_segno` has been set. -/
def changeCurseg (sbi : Sbi) (type : CursegType) (reuse : Bool) (state : State) : Option State :=
  let newSegno := (state.curseg type).nextSegno
  if sbi.mainSegments ≤ newSegno then none
  else
    let written := writeSumPage type state
    let inuse := { written with free := setTestAndInuse sbi newSegno written.free }
    (removeDirtyType sbi newSegno .pre inuse).bind fun state =>
      (removeDirtyType sbi newSegno .dirty state).bind fun state =>
        (resetCurseg sbi type true state).map fun state =>
          let ssr := state.setCurseg type { state.curseg type with allocType := .ssr }
          let placed := nextFreeBlkoff sbi type 0 ssr
          if reuse then
            let curseg := placed.curseg type
            placed.setCurseg type
              { curseg with
                sumBlk := { curseg.sumBlk with entries := (placed.sumPages newSegno).entries } }
          else placed

/-- `__has_curseg_space`. -/
def hasCursegSpace (sbi : Sbi) (state : State) (type : CursegType) : Bool :=
  decide ((state.curseg type).nextBlkoff < sbi.blocksPerSeg)

/-! ## What the searches find -/

theorem walkLeft_free {sbi : Sbi} {secmap : BitMap} {leftStart : Nat}
    (inMain : walkLeft sbi secmap leftStart < sbi.totalSections) :
    secmap (walkLeft sbi secmap leftStart) = false := by
  induction leftStart with
  | zero =>
      unfold walkLeft at inMain ⊢
      split
      · next used =>
          rw [if_pos used] at inMain
          exact BitMap.findNext_found inMain
      · next unused => simpa using unused
  | succ leftStart ih =>
      unfold walkLeft at inMain ⊢
      split
      · next used =>
          rw [if_pos used] at inMain
          exact ih inMain
      · next unused => simpa using unused

theorem searchRight_free {sbi : Sbi} {secmap : BitMap} {dir : AllocDir} {hint leftStart : Nat}
    {goLeft : Bool}
    (inMain : (searchRight sbi secmap dir hint goLeft leftStart).secno < sbi.totalSections) :
    secmap (searchRight sbi secmap dir hint goLeft leftStart).secno = false := by
  unfold searchRight at inMain ⊢
  simp only at inMain ⊢
  split
  · next outside =>
      rw [if_pos outside] at inMain
      split
      · next rightwards =>
          rw [if_pos rightwards] at inMain
          exact BitMap.findNext_found inMain
      · next leftwards =>
          rw [if_neg leftwards] at inMain
          exact absurd inMain (by simpa using outside)
  · next inside =>
      rw [if_neg inside] at inMain
      exact BitMap.findNext_found inMain

/-- A section found is free. -/
theorem findSection_free {sbi : Sbi} {secmap : BitMap} {dir : AllocDir} {hint leftStart : Nat}
    {goLeft : Bool} {search : SectionSearch}
    (found : findSection sbi secmap dir hint goLeft leftStart = some search) :
    search.secno < sbi.totalSections ∧ secmap search.secno = false := by
  obtain ⟨searched, bounded⟩ := Option.filter_eq_some_iff.mp found
  have inMain : search.secno < sbi.totalSections := by simpa using bounded
  refine ⟨inMain, ?_⟩
  unfold searchLeft at searched
  split at searched
  · split at searched
    · cases searched
    · obtain rfl := Option.some.inj searched
      exact walkLeft_free inMain
  · obtain rfl := Option.some.inj searched
    exact searchRight_free inMain

theorem findNewSection_free {sbi : Sbi} {state : State} {newseg secno : Nat} {dir : AllocDir}
    (found : findNewSection sbi state newseg dir = some secno) :
    secno < sbi.totalSections ∧ state.free.freeSecmap secno = false := by
  simp only [findNewSection, Option.bind_eq_some_iff] at found
  obtain ⟨first, searched, chosen⟩ := found
  have firstFree := findSection_free searched
  split_ifs at chosen
  · exact Option.some.inj chosen ▸ firstFree
  · exact Option.some.inj chosen ▸ firstFree
  · exact Option.some.inj chosen ▸ firstFree
  · obtain ⟨second, searched', rfl⟩ := Option.map_eq_some_iff.mp chosen
    exact findSection_free searched'
  · exact Option.some.inj chosen ▸ firstFree

/-- `get_new_segment` finds a free segment of the main area. -/
theorem findNewSegment_free {sbi : Sbi} {state : State} {newseg segno : Nat} {newSec : Bool}
    {dir : AllocDir} (secmap : SecmapFree sbi state.free) (inMain : newseg < sbi.mainSegments)
    (found : findNewSegment sbi state newseg newSec dir = some segno) :
    segno < sbi.mainSegments ∧ state.free.freeSegmap segno = false := by
  unfold findNewSegment at found
  simp only at found
  split at found
  · next near =>
      obtain ⟨_, inner, close⟩ := near
      obtain rfl := Option.some.inj found
      obtain ⟨lower, upper⟩ := section_bounds sbi newseg
      have divided := Nat.div_add_mod' newseg sbi.segsPerSec
      have last : sbi.segsPerSec * (newseg / sbi.segsPerSec + 1) ≤ sbi.mainSegments := by
        rw [sbi.main_eq, Nat.mul_comm]
        exact Nat.mul_le_mul_right _ (Sbi.secno_lt inMain)
      have inside : state.free.freeSegmap.findNextZeroBit sbi.mainSegments (newseg + 1) <
          sbi.mainSegments := by
        rw [Nat.mul_add, Nat.mul_one, Nat.mul_comm] at last
        omega
      exact ⟨inside, BitMap.findNext_found inside⟩
  · obtain ⟨secno, searched, rfl⟩ := Option.map_eq_some_iff.mp found
    obtain ⟨bounded, unused⟩ := findNewSection_free searched
    have first := Sbi.segno_lt bounded sbi.segsPerSec_pos
    rw [Nat.add_zero] at first
    refine ⟨first, secmap _ ?_ first⟩
    rw [Nat.mul_div_cancel _ sbi.segsPerSec_pos]
    exact unused

end F2fs
end StorageStack
