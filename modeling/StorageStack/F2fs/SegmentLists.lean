import StorageStack.F2fs.SitEntry

/-!
# Free maps and dirty lists

The bit maps that classify the segments of the main area: the free maps of segments and sections,
and the eight dirty lists with their counters.  The functions are those of `segment.h` and the three
helpers of `segment.c` which move a segment between the dirty lists.
-/

namespace StorageStack
namespace F2fs

/-! ## Free maps -/

/-- `__set_free`. -/
def setFree (sbi : Sbi) (segno : Nat) (free : FreeSegmap) : FreeSegmap :=
  let secno := segno / sbi.segsPerSec
  let startSegno := secno * sbi.segsPerSec
  let segmap := free.freeSegmap.clear segno
  let next := segmap.findNextBit sbi.mainSegments startSegno
  if startSegno + sbi.segsPerSec ≤ next then
    { freeSegmap := segmap
      freeSegments := free.freeSegments + 1
      freeSecmap := free.freeSecmap.clear secno
      freeSections := free.freeSections + 1 }
  else { free with freeSegmap := segmap, freeSegments := free.freeSegments + 1 }

/-- `__set_inuse`. -/
def setInuse (sbi : Sbi) (segno : Nat) (free : FreeSegmap) : FreeSegmap :=
  let secno := segno / sbi.segsPerSec
  { freeSegmap := free.freeSegmap.set segno
    freeSegments := free.freeSegments - 1
    freeSecmap := free.freeSecmap.set secno
    freeSections :=
      if free.freeSecmap secno then free.freeSections else free.freeSections - 1 }

/-- `__set_test_and_free`. -/
def setTestAndFree (sbi : Sbi) (segno : Nat) (free : FreeSegmap) : FreeSegmap :=
  let secno := segno / sbi.segsPerSec
  let startSegno := secno * sbi.segsPerSec
  if free.freeSegmap segno then
    let segmap := free.freeSegmap.clear segno
    let next := segmap.findNextBit (startSegno + sbi.segsPerSec) startSegno
    if startSegno + sbi.segsPerSec ≤ next then
      { freeSegmap := segmap
        freeSegments := free.freeSegments + 1
        freeSecmap := free.freeSecmap.clear secno
        freeSections :=
          if free.freeSecmap secno then free.freeSections + 1 else free.freeSections }
    else { free with freeSegmap := segmap, freeSegments := free.freeSegments + 1 }
  else free

/-- `__set_test_and_inuse`. -/
def setTestAndInuse (sbi : Sbi) (segno : Nat) (free : FreeSegmap) : FreeSegmap :=
  if free.freeSegmap segno then free else setInuse sbi segno free

/-- Every segment of a free section is free. -/
def SecmapFree (sbi : Sbi) (free : FreeSegmap) : Prop :=
  ∀ segno, free.freeSecmap (segno / sbi.segsPerSec) = false → segno < sbi.mainSegments →
    free.freeSegmap segno = false

theorem freeSegmap_setFree (sbi : Sbi) (segno : Nat) (free : FreeSegmap) :
    (setFree sbi segno free).freeSegmap = free.freeSegmap.clear segno := by
  simp only [setFree]
  split <;> rfl

theorem freeSegmap_setTestAndInuse (sbi : Sbi) (segno : Nat) (free : FreeSegmap) :
    (setTestAndInuse sbi segno free).freeSegmap = free.freeSegmap.set segno := by
  unfold setTestAndInuse
  split
  · next used =>
      funext bit
      by_cases same : bit = segno
      · subst same
        simp [used]
      · rw [BitMap.set_of_ne same]
  · rfl

theorem freeSegmap_setTestAndFree (sbi : Sbi) (segno : Nat) (free : FreeSegmap) :
    (setTestAndFree sbi segno free).freeSegmap = free.freeSegmap.clear segno := by
  simp only [setTestAndFree]
  split
  · split <;> rfl
  · next unused =>
      funext bit
      by_cases same : bit = segno
      · subst same
        simpa using unused
      · rw [BitMap.clear_of_ne same]

/-- The segments of one section lie between its first one and the next section. -/
theorem section_bounds (sbi : Sbi) (segno : Nat) :
    segno / sbi.segsPerSec * sbi.segsPerSec ≤ segno ∧
      segno < segno / sbi.segsPerSec * sbi.segsPerSec + sbi.segsPerSec := by
  have divided := Nat.div_add_mod' segno sbi.segsPerSec
  have small := Nat.mod_lt segno sbi.segsPerSec_pos
  omega

theorem secmapFree_setInuse {sbi : Sbi} {free : FreeSegmap} (segno : Nat)
    (secmap : SecmapFree sbi free) : SecmapFree sbi (setInuse sbi segno free) := by
  intro other clear inMain
  simp only [setInuse, BitMap.set_apply] at clear ⊢
  split at clear
  · simp at clear
  · next otherSection =>
      rw [if_neg (by rintro rfl; exact otherSection rfl)]
      exact secmap other clear inMain

theorem secmapFree_setTestAndInuse {sbi : Sbi} {free : FreeSegmap} (segno : Nat)
    (secmap : SecmapFree sbi free) : SecmapFree sbi (setTestAndInuse sbi segno free) := by
  unfold setTestAndInuse
  split
  · exact secmap
  · exact secmapFree_setInuse segno secmap

/-- Clearing the bit of a section is right when the search finds no segment of it in use. -/
theorem secmapFree_clear {sbi : Sbi} {segno size : Nat} {free cleared : FreeSegmap}
    (secmap : SecmapFree sbi free)
    (segmap_eq : cleared.freeSegmap = free.freeSegmap.clear segno)
    (secmap_eq : cleared.freeSecmap = free.freeSecmap.clear (segno / sbi.segsPerSec))
    (none_used : segno / sbi.segsPerSec * sbi.segsPerSec + sbi.segsPerSec ≤
      (free.freeSegmap.clear segno).findNextBit size
        (segno / sbi.segsPerSec * sbi.segsPerSec)) : SecmapFree sbi cleared := by
  intro other clear inMain
  rw [secmap_eq, BitMap.clear_apply] at clear
  rw [segmap_eq]
  obtain ⟨lower, upper⟩ := section_bounds sbi other
  split at clear
  · next same =>
      rw [same] at lower upper
      have skipped := BitMap.findNext_skipped lower
        (show other < BitMap.findNext true _ size _ from lt_of_lt_of_le upper none_used)
      simpa using skipped
  · rw [BitMap.clear_apply]
    split
    · rfl
    · exact secmap other clear inMain

theorem secmapFree_setFree {sbi : Sbi} {free : FreeSegmap} (segno : Nat)
    (secmap : SecmapFree sbi free) : SecmapFree sbi (setFree sbi segno free) := by
  simp only [setFree]
  split
  · next none_used => exact secmapFree_clear secmap rfl rfl none_used
  · intro other clear inMain
    simp only [BitMap.clear_apply]
    split
    · rfl
    · exact secmap other clear inMain

theorem secmapFree_setTestAndFree {sbi : Sbi} {free : FreeSegmap} (segno : Nat)
    (secmap : SecmapFree sbi free) : SecmapFree sbi (setTestAndFree sbi segno free) := by
  simp only [setTestAndFree]
  split
  · split
    · next none_used => exact secmapFree_clear secmap rfl rfl none_used
    · intro other clear inMain
      simp only [BitMap.clear_apply]
      split
      · rfl
      · exact secmap other clear inMain
  · exact secmap

/-! ## Dirty lists -/

/-- Set the bit of a segment in one list and count it if it was clear. -/
def addDirty (type : DirtyType) (segno : Nat) (dirty : DirtySeglist) : DirtySeglist :=
  if dirty.dirtySegmap type segno then dirty
  else
    { dirty with
      dirtySegmap := Function.update dirty.dirtySegmap type ((dirty.dirtySegmap type).set segno)
      nrDirty := Function.update dirty.nrDirty type (dirty.nrDirty type + 1) }

/-- Clear the bit of a segment in one list and uncount it if it was set. -/
def dropDirty (type : DirtyType) (segno : Nat) (dirty : DirtySeglist) : DirtySeglist :=
  if dirty.dirtySegmap type segno then
    { dirty with
      dirtySegmap := Function.update dirty.dirtySegmap type ((dirty.dirtySegmap type).clear segno)
      nrDirty := Function.update dirty.nrDirty type (dirty.nrDirty type - 1) }
  else dirty

/-- `__locate_dirty_segment`. -/
def locateDirtyType (segno : Nat) (type : DirtyType) (state : State) : State :=
  if isCurseg state segno then state
  else
    let located := { state with dirty := addDirty type segno state.dirty }
    if type = .dirty then
      match CursegType.ofNat? (state.sit.sentries segno).type with
      | none => bugOn .locateDirtySegment true located
      | some log => { located with dirty := addDirty (.log log) segno located.dirty }
    else located

/-- `__remove_dirty_segment`. -/
def removeDirtyType (sbi : Sbi) (segno : Nat) (type : DirtyType) (state : State) : Option State :=
  let dropped := dropDirty type segno state.dirty
  if type = .dirty then
    (DirtyType.ofNat? (state.sit.sentries segno).type).map fun own =>
      let dropped := dropDirty own segno dropped
      if getValidBlocks sbi state segno sbi.segsPerSec = 0 then
        { state with
          dirty := { dropped with victimSecmap := dropped.victimSecmap.clear (sbi.getSecno segno) } }
      else { state with dirty := dropped }
  else some { state with dirty := dropped }

/-- `locate_dirty_segment`. -/
def locateDirtySegment (sbi : Sbi) (segno : Nat) (state : State) : Option State :=
  if segno = nullSegno ∨ isCurseg state segno = true then some state
  else if sbi.mainSegments ≤ segno then none
  else
    let validBlocks := getValidBlocks sbi state segno 0
    if validBlocks = 0 then removeDirtyType sbi segno .dirty (locateDirtyType segno .pre state)
    else if validBlocks < sbi.blocksPerSeg then some (locateDirtyType segno .dirty state)
    else removeDirtyType sbi segno .dirty state

/-- Every counter is the size of its list. -/
def Counted (sbi : Sbi) (dirty : DirtySeglist) : Prop :=
  ∀ type, dirty.nrDirty type = (dirty.dirtySegmap type).popCount sbi.mainSegments

theorem dirtySegmap_addDirty (type other : DirtyType) (segno bit : Nat) (dirty : DirtySeglist) :
    (addDirty type segno dirty).dirtySegmap other bit =
      if other = type ∧ bit = segno then true else dirty.dirtySegmap other bit := by
  unfold addDirty
  split
  · next already =>
      split
      · next same =>
          obtain ⟨rfl, rfl⟩ := same
          exact already
      · rfl
  · by_cases sameType : other = type
    · subst sameType
      simp [BitMap.set_apply]
    · simp [sameType]

theorem dirtySegmap_dropDirty (type other : DirtyType) (segno bit : Nat) (dirty : DirtySeglist) :
    (dropDirty type segno dirty).dirtySegmap other bit =
      if other = type ∧ bit = segno then false else dirty.dirtySegmap other bit := by
  unfold dropDirty
  split
  · by_cases sameType : other = type
    · subst sameType
      simp [BitMap.clear_apply]
    · simp [sameType]
  · next absent =>
      split
      · next same =>
          obtain ⟨rfl, rfl⟩ := same
          simpa using absent
      · rfl

theorem counted_addDirty {sbi : Sbi} {segno : Nat} {dirty : DirtySeglist} (type : DirtyType)
    (inMain : segno < sbi.mainSegments) (counted : Counted sbi dirty) :
    Counted sbi (addDirty type segno dirty) := by
  unfold addDirty
  split
  · exact counted
  · next absent =>
      intro other
      by_cases same : other = type
      · subst same
        simp [counted other, BitMap.popCount_set inMain (Bool.eq_false_iff.mpr absent)]
      · simp [same, counted other]

theorem counted_dropDirty {sbi : Sbi} {segno : Nat} {dirty : DirtySeglist} (type : DirtyType)
    (inMain : segno < sbi.mainSegments) (counted : Counted sbi dirty) :
    Counted sbi (dropDirty type segno dirty) := by
  unfold dropDirty
  split
  · next present =>
      intro other
      by_cases same : other = type
      · subst same
        have fewer := BitMap.popCount_clear inMain present
        simp only [Function.update_self, counted other]
        omega
      · simp [same, counted other]
  · exact counted

/-- The lists a segment is in. -/
def listsOf (dirty : DirtySeglist) (segno : Nat) : DirtyType → Bool :=
  fun type => dirty.dirtySegmap type segno

/-- A segment is in the list of a log exactly if it is in `DIRTY` and of that type. -/
def OwnLog (se : SegEntry) (lists : DirtyType → Bool) : Prop :=
  ∀ log : CursegType, lists (.log log) = (lists .dirty && decide (se.type = log.toNat))

/-- The lists of a segment in use which is no current segment. -/
structure Listed (sbi : Sbi) (se : SegEntry) (lists : DirtyType → Bool) : Prop where
  pre : lists .pre = decide (se.validBlocks = 0)
  dirty : lists .dirty = decide (0 < se.validBlocks ∧ se.validBlocks < sbi.blocksPerSeg)
  log : OwnLog se lists

/-- The lists of a segment whose valid blocks have changed since it was listed. -/
structure Stale (se : SegEntry) (lists : DirtyType → Bool) : Prop where
  pre : lists .pre = false
  log : OwnLog se lists

/-- The segment is in no list. -/
def Unlisted (lists : DirtyType → Bool) : Prop := ∀ type, lists type = false

theorem Unlisted.stale {se : SegEntry} {lists : DirtyType → Bool} (unlisted : Unlisted lists) :
    Stale se lists :=
  ⟨unlisted .pre, fun log => by simp [unlisted (.log log), unlisted .dirty]⟩

/-- What moving a segment between the dirty lists leaves alone. -/
structure DirtyFrame (sbi : Sbi) (segno : Nat) (dirty next : DirtySeglist) : Prop where
  counted : Counted sbi next
  others : ∀ other ≠ segno, listsOf next other = listsOf dirty other

theorem removeDirtyType_pre (sbi : Sbi) (segno : Nat) (state : State) :
    removeDirtyType sbi segno .pre state =
      some { state with dirty := dropDirty .pre segno state.dirty } := by
  simp [removeDirtyType]

/-- `__remove_dirty_segment` with `DIRTY` takes a segment off `DIRTY` and the list of its log. -/
theorem removeDirtyType_dirty {sbi : Sbi} {segno : Nat} {log : CursegType} (state : State)
    (inMain : segno < sbi.mainSegments) (counted : Counted sbi state.dirty)
    (type_eq : (state.sit.sentries segno).type = log.toNat) :
    ∃ dirty, removeDirtyType sbi segno .dirty state = some { state with dirty := dirty } ∧
      DirtyFrame sbi segno state.dirty dirty ∧
      ∀ type, listsOf dirty segno type =
        if type = .dirty ∨ type = .log log then false else listsOf state.dirty segno type := by
  have both := counted_dropDirty (.log log) inMain (counted_dropDirty .dirty inMain counted)
  have segmap : ∀ type bit, (dropDirty (.log log) segno
      (dropDirty .dirty segno state.dirty)).dirtySegmap type bit =
        if (type = .dirty ∨ type = .log log) ∧ bit = segno then false
        else state.dirty.dirtySegmap type bit := by
    intro type bit
    simp only [dirtySegmap_dropDirty]
    split_ifs <;> simp_all
  simp only [removeDirtyType, if_true, type_eq, DirtyType.ofNat?_toNat, Option.map_some]
  split
  · refine ⟨_, rfl, ⟨both, ?_⟩, ?_⟩
    · intro other ne
      funext type
      simp [listsOf, segmap, ne]
    · intro type
      simp [listsOf, segmap]
  · refine ⟨_, rfl, ⟨both, ?_⟩, ?_⟩
    · intro other ne
      funext type
      simp [listsOf, segmap, ne]
    · intro type
      simp [listsOf, segmap]

/-- Another log's list has no segment that belongs to `log`. -/
theorem OwnLog.other {se : SegEntry} {lists : DirtyType → Bool} {log other : CursegType}
    (own : OwnLog se lists) (type_eq : se.type = log.toNat) (ne : other ≠ log) :
    lists (.log other) = false := by
  have different : ¬ log.toNat = other.toNat :=
    fun equal => ne (CursegType.toNat_injective equal).symm
  simp [own other, type_eq, different]

/-- `locate_dirty_segment` lists a segment by its valid blocks. -/
theorem locateDirtySegment_spec {sbi : Sbi} {segno : Nat} {state : State} {log : CursegType}
    (inMain : segno < sbi.mainSegments) (counted : Counted sbi state.dirty)
    (notCurrent : isCurseg state segno = false)
    (type_eq : (state.sit.sentries segno).type = log.toNat)
    (lists : Stale (state.sit.sentries segno) (listsOf state.dirty segno) ∨
      Listed sbi (state.sit.sentries segno) (listsOf state.dirty segno)) :
    ∃ dirty, locateDirtySegment sbi segno state = some { state with dirty := dirty } ∧
      DirtyFrame sbi segno state.dirty dirty ∧
      Listed sbi (state.sit.sentries segno) (listsOf dirty segno) := by
  have small := sbi.mainSegments_lt_nullSegno
  have own : OwnLog (state.sit.sentries segno) (listsOf state.dirty segno) :=
    lists.elim (·.log) (·.log)
  have blocks : getValidBlocks sbi state segno 0 = (state.sit.sentries segno).validBlocks := by
    simp [getValidBlocks]
  have searched : ¬ (segno = nullSegno ∨ isCurseg state segno = true) := by
    rw [notCurrent]
    rintro (special | current)
    · omega
    · simp at current
  rw [locateDirtySegment, if_neg searched, if_neg (by omega), blocks]
  by_cases zero : (state.sit.sentries segno).validBlocks = 0
  · have located : locateDirtyType segno .pre state =
        { state with dirty := addDirty .pre segno state.dirty } := by
      simp [locateDirtyType, notCurrent]
    obtain ⟨dirty, removed, frame, lists'⟩ :=
      removeDirtyType_dirty { state with dirty := addDirty .pre segno state.dirty } inMain
        (counted_addDirty .pre inMain counted) type_eq
    refine ⟨dirty, by rw [if_pos zero, located]; exact removed, ⟨frame.counted, ?_⟩, ?_, ?_, ?_⟩
    · intro other ne
      rw [frame.others other ne]
      funext type
      simp [listsOf, dirtySegmap_addDirty, ne]
    · rw [lists']
      simp [listsOf, dirtySegmap_addDirty, zero]
    · simp [lists', zero]
    · intro other
      by_cases same : other = log
      · subst same
        simp [lists']
      · have absent := own.other type_eq same
        rw [lists', lists']
        simpa [listsOf, dirtySegmap_addDirty, same] using absent
  · rw [if_neg zero]
    have pre_false : listsOf state.dirty segno .pre = false := by
      rcases lists with stale | listed
      · exact stale.pre
      · simp [listed.pre, zero]
    by_cases partly : (state.sit.sentries segno).validBlocks < sbi.blocksPerSeg
    · rw [if_pos partly]
      have located : locateDirtyType segno .dirty state =
          { state with dirty := addDirty (.log log) segno (addDirty .dirty segno state.dirty) } := by
        simp [locateDirtyType, notCurrent, type_eq]
      refine ⟨_, by rw [located], ⟨?_, ?_⟩, ?_, ?_, ?_⟩
      · exact counted_addDirty _ inMain (counted_addDirty _ inMain counted)
      · intro other ne
        funext type
        simp [listsOf, dirtySegmap_addDirty, ne]
      · simpa [listsOf, dirtySegmap_addDirty, zero] using pre_false
      · simp [listsOf, dirtySegmap_addDirty, partly]
        omega
      · intro other
        by_cases same : other = log
        · subst same
          simp [listsOf, dirtySegmap_addDirty, type_eq]
        · have absent := own.other type_eq same
          have different : ¬ log.toNat = other.toNat :=
            fun equal => same (CursegType.toNat_injective equal).symm
          simpa [listsOf, dirtySegmap_addDirty, same, type_eq, different] using absent
    · rw [if_neg partly]
      obtain ⟨dirty, removed, frame, lists'⟩ := removeDirtyType_dirty state inMain counted type_eq
      refine ⟨dirty, removed, frame, ?_, ?_, ?_⟩
      · simpa [lists', zero] using pre_false
      · simp [lists', partly]
      · intro other
        by_cases same : other = log
        · subst same
          simp [lists']
        · have absent := own.other type_eq same
          simpa [lists', same] using absent

end F2fs
end StorageStack
