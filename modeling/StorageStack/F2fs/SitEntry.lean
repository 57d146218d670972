import StorageStack.F2fs.SegmentState

/-!
# Segment information entries

The in-memory entries of the segment information table, the helper `update_sit_entry` through which
every change of a block's validity goes, and the accounting the entries keep as long as a block is
only marked valid while it is invalid, and the other way round.
-/

namespace StorageStack
namespace F2fs

/-! ## Raw entries -/

/-- `GET_SIT_VBLOCKS`. -/
def getSitVblocks (raw : RawSit) : Nat := raw.vblocks &&& (2 ^ sitVblocksShift - 1)

/-- `GET_SIT_TYPE`. -/
def getSitType (raw : RawSit) : Nat := raw.vblocks >>> sitVblocksShift

/-- `seg_info_from_raw_sit`. -/
def segInfoFromRawSit (raw : RawSit) : SegEntry where
  validBlocks := getSitVblocks raw
  curValidMap := raw.validMap
  ckptValidBlocks := getSitVblocks raw
  ckptValidMap := raw.validMap
  type := getSitType raw
  mtime := raw.mtime

/-- The raw entry `seg_info_to_raw_sit` writes. -/
def segInfoToRawSit (se : SegEntry) : RawSit where
  vblocks := (se.type <<< sitVblocksShift ||| se.validBlocks) % 2 ^ 16
  validMap := se.curValidMap
  mtime := se.mtime

/-- The entry after `seg_info_to_raw_sit`: the checkpoint has caught up with it. -/
def SegEntry.checkpointed (se : SegEntry) : SegEntry :=
  { se with ckptValidMap := se.curValidMap, ckptValidBlocks := se.validBlocks }

/-! ## Updates -/

/-- `__mark_sit_entry_dirty`. -/
def markSitEntryDirty (segno : Nat) (sit : SitInfo) : SitInfo :=
  if sit.dirtySentriesBitmap segno then sit
  else
    { sit with
      dirtySentriesBitmap := sit.dirtySentriesBitmap.set segno
      dirtySentries := sit.dirtySentries + 1 }

/-- `__set_sit_entry_type`. -/
def setSitEntryType (type segno : Nat) (modified : Bool) (sit : SitInfo) : SitInfo :=
  let typed :=
    { sit with
      sentries := Function.update sit.sentries segno { sit.sentries segno with type := type } }
  if modified then markSitEntryDirty segno typed else typed

/-- Add `del` to a counter of `width` bits. -/
def addWord (width counter : Nat) (del : Int) : Nat := ((counter + del) % 2 ^ width).toNat

/-- What `update_sit_entry` makes of one entry. -/
def SegEntry.updated (se : SegEntry) (mtime offset : Nat) (del : Int) : SegEntry where
  validBlocks := addWord 16 se.validBlocks del
  curValidMap := if 0 < del then se.curValidMap.set offset else se.curValidMap.clear offset
  ckptValidBlocks :=
    if se.ckptValidMap offset then se.ckptValidBlocks else addWord 16 se.ckptValidBlocks del
  ckptValidMap := se.ckptValidMap
  type := se.type
  mtime := mtime

/-- The first check of `update_sit_entry`: the new count leaves its 16 bits or the segment. -/
def countOverflows (sbi : Sbi) (se : SegEntry) (del : Int) : Bool :=
  let newVblocks : Int := se.validBlocks + del
  decide (newVblocks < 0) || decide ((2 ^ 16 : Int) ≤ newVblocks) ||
    decide ((sbi.blocksPerSeg : Int) < newVblocks)

/-- `update_sit_entry`. -/
def updateSitEntry (sbi : Sbi) (mtime blkaddr : Nat) (del : Int) (state : State) :
    Option State :=
  let segno := sbi.getSegno blkaddr
  let offset := sbi.getBlkoffFromSeg0 blkaddr
  if sbi.mainSegments ≤ segno then none
  else
    let se := state.sit.sentries segno
    let sit :=
      { state.sit with
        sentries := Function.update state.sit.sentries segno (se.updated mtime offset del)
        maxMtime := mtime }
    let marked := markSitEntryDirty segno sit
    let counted :=
      { marked with
        writtenValidBlocks := addWord 32 marked.writtenValidBlocks del
        secEntries :=
          if 1 < sbi.segsPerSec then
            Function.update marked.secEntries (sbi.getSecno segno)
              (addWord 32 (marked.secEntries (sbi.getSecno segno)) del)
          else marked.secEntries }
    some (bugOn .updateSitEntry (decide (se.curValidMap offset = decide (0 < del)))
      (bugOn .updateSitEntry (countOverflows sbi se del) { state with sit := counted }))

/-! ## Accounting -/

/-- The counters of an entry count its bit maps. -/
structure SegAccounted (sbi : Sbi) (se : SegEntry) : Prop where
  valid : se.validBlocks = se.curValidMap.popCount sbi.blocksPerSeg
  ckpt : se.ckptValidBlocks =
    (se.curValidMap.union se.ckptValidMap).popCount sbi.blocksPerSeg

/-- The valid blocks of a section, summed over its segments. -/
def sectionSum (sbi : Sbi) (sentries : Nat → SegEntry) (secno : Nat) : Nat :=
  ∑ index ∈ Finset.range sbi.segsPerSec,
    (sentries (secno * sbi.segsPerSec + index)).validBlocks

/-- The accounting of the segment information table. -/
structure SitAccounted (sbi : Sbi) (sit : SitInfo) : Prop where
  entry : ∀ segno < sbi.mainSegments, SegAccounted sbi (sit.sentries segno)
  sections : 1 < sbi.segsPerSec → ∀ secno < sbi.totalSections,
    sit.secEntries secno = sectionSum sbi sit.sentries secno
  dirty : sit.dirtySentries = sit.dirtySentriesBitmap.popCount sbi.mainSegments
  /-- An entry which is not dirty is as the last checkpoint has it. -/
  clean : ∀ segno < sbi.mainSegments, sit.dirtySentriesBitmap segno = false →
    ∀ offset < sbi.blocksPerSeg, (sit.sentries segno).curValidMap offset =
      (sit.sentries segno).ckptValidMap offset

theorem SegAccounted.le {sbi : Sbi} {se : SegEntry} (accounted : SegAccounted sbi se) :
    se.validBlocks ≤ sbi.blocksPerSeg := by
  rw [accounted.valid]
  exact BitMap.popCount_le _ _

theorem SegAccounted.ckpt_le {sbi : Sbi} {se : SegEntry} (accounted : SegAccounted sbi se) :
    se.ckptValidBlocks ≤ sbi.blocksPerSeg := by
  rw [accounted.ckpt]
  exact BitMap.popCount_le _ _

theorem SegAccounted.valid_pos {sbi : Sbi} {se : SegEntry} (accounted : SegAccounted sbi se)
    {offset : Nat} (inSegment : offset < sbi.blocksPerSeg)
    (valid : se.curValidMap offset = true) : 0 < se.validBlocks := by
  rw [accounted.valid, BitMap.popCount_pos_iff]
  exact ⟨offset, inSegment, valid⟩

theorem SegAccounted.invalid_of_zero {sbi : Sbi} {se : SegEntry}
    (accounted : SegAccounted sbi se) (zero : se.validBlocks = 0) :
    ∀ offset < sbi.blocksPerSeg, se.curValidMap offset = false := by
  rw [accounted.valid] at zero
  exact BitMap.popCount_eq_zero_iff.mp zero

theorem addWord_one {width counter : Nat} (small : counter + 1 < 2 ^ width) :
    addWord width counter 1 = counter + 1 := by
  have cast : ((counter : Int) + 1) % 2 ^ width = (counter + 1 : Nat) := by
    push_cast
    exact Int.emod_eq_of_lt (by omega) (by exact_mod_cast small)
  rw [addWord, cast, Int.toNat_natCast]

theorem addWord_neg_one {width counter : Nat} (small : counter < 2 ^ width)
    (positive : 0 < counter) : addWord width counter (-1) = counter - 1 := by
  have cast : ((counter : Int) + -1) % 2 ^ width = (counter - 1 : Nat) := by
    rw [Nat.cast_sub positive]
    push_cast
    have bound : (counter : Int) < 2 ^ width := by exact_mod_cast small
    exact Int.emod_eq_of_lt (by omega) (by omega)
  rw [addWord, cast, Int.toNat_natCast]

/-- The change of validity that fits an entry: `1` for an invalid block, `-1` for a valid one. -/
def Fits (se : SegEntry) (offset : Nat) (del : Int) : Prop :=
  del = 1 ∧ se.curValidMap offset = false ∨ del = -1 ∧ se.curValidMap offset = true

theorem union_set (cur ckpt : BitMap) (offset : Nat) :
    (cur.set offset).union ckpt = (cur.union ckpt).set offset := by
  funext bit
  by_cases same : bit = offset
  · subst same
    simp
  · simp [BitMap.set_of_ne same]

theorem union_clear {cur ckpt : BitMap} {offset : Nat} (free : ckpt offset = false) :
    (cur.clear offset).union ckpt = (cur.union ckpt).clear offset := by
  funext bit
  by_cases same : bit = offset
  · subst same
    simp [free]
  · simp [BitMap.clear_of_ne same]

theorem union_clear_of_set {cur ckpt : BitMap} {offset : Nat} (isSet : ckpt offset = true) :
    (cur.clear offset).union ckpt = cur.union ckpt := by
  funext bit
  by_cases same : bit = offset
  · subst same
    simp [isSet]
  · simp [BitMap.clear_of_ne same]

theorem union_set_of_set {cur ckpt : BitMap} {offset : Nat} (isSet : ckpt offset = true) :
    (cur.set offset).union ckpt = cur.union ckpt := by
  funext bit
  by_cases same : bit = offset
  · subst same
    simp [isSet]
  · simp [BitMap.set_of_ne same]

/-- A fitting change adds exactly `del` to the count of valid blocks. -/
theorem validBlocks_updated {sbi : Sbi} {se : SegEntry} {offset : Nat} {del : Int} (mtime : Nat)
    (accounted : SegAccounted sbi se) (inSegment : offset < sbi.blocksPerSeg)
    (fits : Fits se offset del) :
    ((se.updated mtime offset del).validBlocks : Int) = se.validBlocks + del := by
  have small := sbi.blocksPerSeg_le
  have count := accounted.le
  rcases fits with ⟨rfl, _⟩ | ⟨rfl, valid⟩
  · simp only [SegEntry.updated]
    rw [addWord_one (by omega)]
    omega
  · have positive := accounted.valid_pos inSegment valid
    simp only [SegEntry.updated]
    rw [addWord_neg_one (by omega) positive]
    omega

theorem segAccounted_updated {sbi : Sbi} {se : SegEntry} {offset : Nat} {del : Int} (mtime : Nat)
    (accounted : SegAccounted sbi se) (inSegment : offset < sbi.blocksPerSeg)
    (fits : Fits se offset del) : SegAccounted sbi (se.updated mtime offset del) := by
  have counted := validBlocks_updated mtime accounted inSegment fits
  have small := sbi.blocksPerSeg_le
  have bound := accounted.ckpt_le
  rcases fits with ⟨rfl, invalid⟩ | ⟨rfl, valid⟩
  · have grown := BitMap.popCount_set inSegment invalid
    constructor
    · rw [← accounted.valid] at grown
      simp only [SegEntry.updated] at counted ⊢
      simp only [Int.reduceLT, if_true]
      omega
    · simp only [SegEntry.updated, Int.reduceLT, if_true]
      cases saved : se.ckptValidMap offset with
      | true => rw [if_pos rfl, union_set_of_set saved, accounted.ckpt]
      | false =>
          rw [if_neg (by simp), addWord_one (by omega), union_set, accounted.ckpt,
            BitMap.popCount_set inSegment (by simp [invalid, saved])]
  · have shrunk := BitMap.popCount_clear inSegment valid
    constructor
    · rw [← accounted.valid] at shrunk
      simp only [SegEntry.updated] at counted ⊢
      simp only [Int.reduceLT, Int.reduceNeg, if_false]
      omega
    · simp only [SegEntry.updated, Int.reduceLT, Int.reduceNeg, if_false]
      cases saved : se.ckptValidMap offset with
      | true => rw [if_pos rfl, union_clear_of_set saved, accounted.ckpt]
      | false =>
          have inUnion : (se.curValidMap.union se.ckptValidMap) offset = true := by simp [valid]
          have both := BitMap.popCount_clear inSegment inUnion
          rw [← accounted.ckpt] at both
          rw [if_neg (by simp), addWord_neg_one (by omega) (by omega), union_clear saved]
          omega

/-- Changing one entry changes the sum of its section by as much, and no other sum. -/
theorem sectionSum_update (sbi : Sbi) (sentries : Nat → SegEntry) (segno secno : Nat)
    (se : SegEntry) :
    (sectionSum sbi (Function.update sentries segno se) secno : Int) =
      sectionSum sbi sentries secno +
        if secno = segno / sbi.segsPerSec then
          (se.validBlocks : Int) - (sentries segno).validBlocks
        else 0 := by
  have divided := Nat.div_add_mod' segno sbi.segsPerSec
  split
  · next same =>
      have member : segno % sbi.segsPerSec ∈ Finset.range sbi.segsPerSec :=
        Finset.mem_range.mpr (Nat.mod_lt _ sbi.segsPerSec_pos)
      have position : secno * sbi.segsPerSec + segno % sbi.segsPerSec = segno := by
        rw [same]
        exact divided
      have others : ∑ index ∈ (Finset.range sbi.segsPerSec).erase (segno % sbi.segsPerSec),
            (Function.update sentries segno se (secno * sbi.segsPerSec + index)).validBlocks =
          ∑ index ∈ (Finset.range sbi.segsPerSec).erase (segno % sbi.segsPerSec),
            (sentries (secno * sbi.segsPerSec + index)).validBlocks := by
        refine Finset.sum_congr rfl fun index mem => ?_
        have different := Finset.ne_of_mem_erase mem
        rw [Function.update_of_ne (by omega)]
      rw [sectionSum, sectionSum, ← Finset.add_sum_erase _ _ member,
        ← Finset.add_sum_erase _ _ member, others, position, Function.update_self]
      push_cast
      ring
  · next different =>
      rw [add_zero, Nat.cast_inj]
      refine Finset.sum_congr rfl fun index mem => ?_
      have inSection := Finset.mem_range.mp mem
      rw [Function.update_of_ne]
      rintro rfl
      apply different
      rw [Nat.mul_comm, Nat.mul_add_div sbi.segsPerSec_pos, Nat.div_eq_of_lt inSection,
        Nat.add_zero]

theorem sectionSum_congr {sbi : Sbi} {left right : Nat → SegEntry} {secno : Nat}
    (agree : ∀ segno, (left segno).validBlocks = (right segno).validBlocks) :
    sectionSum sbi left secno = sectionSum sbi right secno :=
  Finset.sum_congr rfl fun _ _ => agree _

theorem validBlocks_le_sectionSum (sbi : Sbi) (sentries : Nat → SegEntry) (segno : Nat) :
    (sentries segno).validBlocks ≤ sectionSum sbi sentries (segno / sbi.segsPerSec) := by
  have divided := Nat.div_add_mod' segno sbi.segsPerSec
  have member : segno % sbi.segsPerSec ∈ Finset.range sbi.segsPerSec :=
    Finset.mem_range.mpr (Nat.mod_lt _ sbi.segsPerSec_pos)
  let blocks := fun index =>
    (sentries (segno / sbi.segsPerSec * sbi.segsPerSec + index)).validBlocks
  have single : blocks (segno % sbi.segsPerSec) ≤
      ∑ index ∈ Finset.range sbi.segsPerSec, blocks index :=
    Finset.single_le_sum (fun _ _ => Nat.zero_le _) member
  simpa only [blocks, divided, sectionSum] using single

theorem sectionSum_lt {sbi : Sbi} {sentries : Nat → SegEntry} {secno : Nat}
    (inMain : secno < sbi.totalSections)
    (bounded : ∀ segno < sbi.mainSegments, (sentries segno).validBlocks ≤ sbi.blocksPerSeg) :
    sectionSum sbi sentries secno < 2 ^ 32 := by
  have total : sectionSum sbi sentries secno ≤
      (Finset.range sbi.segsPerSec).card • sbi.blocksPerSeg :=
    Finset.sum_le_card_nsmul _ _ _ fun index mem =>
      bounded _ (Sbi.segno_lt inMain (Finset.mem_range.mp mem))
  have fit := sbi.addresses_fit
  have sections : sbi.segsPerSec ≤ sbi.startSegno + sbi.mainSegments := by
    rw [sbi.main_eq]
    exact le_add_left (Nat.le_mul_of_pos_left _ (by omega))
  have scaled : sbi.segsPerSec * sbi.blocksPerSeg ≤
      (sbi.startSegno + sbi.mainSegments) * 2 ^ sbi.logBlocksPerSeg :=
    Nat.mul_le_mul_right _ sections
  simp only [Finset.card_range, smul_eq_mul] at total
  omega

/-! ## One update -/

@[simp] theorem sentries_markSitEntryDirty (segno : Nat) (sit : SitInfo) :
    (markSitEntryDirty segno sit).sentries = sit.sentries := by
  unfold markSitEntryDirty
  split <;> rfl

@[simp] theorem sitBitmap_markSitEntryDirty (segno : Nat) (sit : SitInfo) :
    (markSitEntryDirty segno sit).sitBitmap = sit.sitBitmap := by
  unfold markSitEntryDirty
  split <;> rfl

@[simp] theorem secEntries_markSitEntryDirty (segno : Nat) (sit : SitInfo) :
    (markSitEntryDirty segno sit).secEntries = sit.secEntries := by
  unfold markSitEntryDirty
  split <;> rfl

theorem dirtySentriesBitmap_markSitEntryDirty (segno : Nat) (sit : SitInfo) :
    (markSitEntryDirty segno sit).dirtySentriesBitmap = sit.dirtySentriesBitmap.set segno := by
  unfold markSitEntryDirty
  split
  · next already =>
      funext bit
      by_cases same : bit = segno
      · subst same
        simp [already]
      · rw [BitMap.set_of_ne same]
  · rfl

theorem dirtySentries_markSitEntryDirty {sbi : Sbi} {segno : Nat} {sit : SitInfo}
    (inMain : segno < sbi.mainSegments)
    (counted : sit.dirtySentries = sit.dirtySentriesBitmap.popCount sbi.mainSegments) :
    (markSitEntryDirty segno sit).dirtySentries =
      (markSitEntryDirty segno sit).dirtySentriesBitmap.popCount sbi.mainSegments := by
  unfold markSitEntryDirty
  split
  · exact counted
  · next clean => rw [counted, BitMap.popCount_set inMain (by simpa using clean)]

/-- Marking an entry dirty keeps the accounting. -/
theorem accounted_markSitEntryDirty {sbi : Sbi} {segno : Nat} {sit : SitInfo}
    (inMain : segno < sbi.mainSegments) (accounted : SitAccounted sbi sit) :
    SitAccounted sbi (markSitEntryDirty segno sit) where
  entry := by simpa using accounted.entry
  sections := by simpa using accounted.sections
  dirty := dirtySentries_markSitEntryDirty inMain accounted.dirty
  clean other inMain' clean := by
    rw [dirtySentriesBitmap_markSitEntryDirty] at clean
    have different : other ≠ segno := by
      rintro rfl
      simp at clean
    rw [BitMap.set_of_ne different] at clean
    simpa using accounted.clean other inMain' clean

/-- Giving an entry a type keeps the accounting. -/
theorem accounted_setSitEntryType {sbi : Sbi} {type segno : Nat} {modified : Bool}
    {sit : SitInfo} (inMain : segno < sbi.mainSegments) (accounted : SitAccounted sbi sit) :
    SitAccounted sbi (setSitEntryType type segno modified sit) := by
  have typed : SitAccounted sbi { sit with
      sentries := Function.update sit.sentries segno { sit.sentries segno with type := type } } := by
    refine ⟨fun other inMain' => ?_, fun several secno inMain' => ?_, accounted.dirty,
      fun other inMain' clean => ?_⟩
    · have old := accounted.entry other inMain'
      by_cases same : other = segno
      · subst same
        simpa using ⟨old.valid, old.ckpt⟩
      · simpa [same] using old
    · rw [accounted.sections several secno inMain']
      refine sectionSum_congr fun other => ?_
      by_cases same : other = segno
      · subst same
        simp
      · simp [same]
    · have old := accounted.clean other inMain' clean
      by_cases same : other = segno
      · subst same
        simpa using old
      · simpa [same] using old
  unfold setSitEntryType
  split
  · exact accounted_markSitEntryDirty inMain typed
  · exact typed

/-- What `update_sit_entry` does to the table when the change fits the entry of the block. -/
structure SitUpdated (sbi : Sbi) (mtime blkaddr : Nat) (del : Int) (sit next : SitInfo) : Prop where
  sentries : next.sentries =
    Function.update sit.sentries (sbi.getSegno blkaddr)
      ((sit.sentries (sbi.getSegno blkaddr)).updated mtime (sbi.getBlkoffFromSeg0 blkaddr) del)
  accounted : SitAccounted sbi next

theorem countOverflows_of_fits {sbi : Sbi} {se : SegEntry} {offset : Nat} {del : Int}
    (accounted : SegAccounted sbi se) (inSegment : offset < sbi.blocksPerSeg)
    (fits : Fits se offset del) : countOverflows sbi se del = false := by
  have counted := validBlocks_updated 0 accounted inSegment fits
  have bound := (segAccounted_updated 0 accounted inSegment fits).le
  have small := sbi.blocksPerSeg_le
  simp only [countOverflows, Bool.or_eq_false_iff, decide_eq_false_iff_not]
  omega

theorem updateSitEntry_spec {sbi : Sbi} {state : State} {blkaddr : Nat} {del : Int} (mtime : Nat)
    (accounted : SitAccounted sbi state.sit) (inMain : sbi.getSegno blkaddr < sbi.mainSegments)
    (fits : Fits (state.sit.sentries (sbi.getSegno blkaddr)) (sbi.getBlkoffFromSeg0 blkaddr) del) :
    ∃ sit, updateSitEntry sbi mtime blkaddr del state = some { state with sit := sit } ∧
      SitUpdated sbi mtime blkaddr del state.sit sit := by
  have inSegment := sbi.getBlkoffFromSeg0_lt blkaddr
  have old := accounted.entry _ inMain
  have noOverflow := countOverflows_of_fits old inSegment fits
  have flipped : decide ((state.sit.sentries (sbi.getSegno blkaddr)).curValidMap
      (sbi.getBlkoffFromSeg0 blkaddr) = decide (0 < del)) = false := by
    rcases fits with ⟨rfl, invalid⟩ | ⟨rfl, valid⟩ <;> simp [*]
  have updated := segAccounted_updated mtime old inSegment fits
  have counted := validBlocks_updated mtime old inSegment fits
  simp only [updateSitEntry, if_neg (show ¬ sbi.mainSegments ≤ sbi.getSegno blkaddr by omega),
    noOverflow, flipped, bugOn, Bool.false_eq_true, if_false]
  refine ⟨_, rfl, by simp, ⟨?_, ?_, ?_, ?_⟩⟩
  · intro other inMain'
    by_cases same : other = sbi.getSegno blkaddr
    · subst same
      simpa using updated
    · simpa [same] using accounted.entry other inMain'
  · intro several secno inMain'
    have sum := sectionSum_update sbi state.sit.sentries (sbi.getSegno blkaddr) secno
      ((state.sit.sentries (sbi.getSegno blkaddr)).updated mtime
        (sbi.getBlkoffFromSeg0 blkaddr) del)
    have before := accounted.sections several
    have bound : sectionSum sbi (Function.update state.sit.sentries (sbi.getSegno blkaddr)
        ((state.sit.sentries (sbi.getSegno blkaddr)).updated mtime
          (sbi.getBlkoffFromSeg0 blkaddr) del)) secno < 2 ^ 32 := by
      refine sectionSum_lt inMain' fun other inMain'' => ?_
      by_cases same : other = sbi.getSegno blkaddr
      · subst same
        simpa using updated.le
      · simpa [same] using (accounted.entry other inMain'').le
    simp only [sentries_markSitEntryDirty, secEntries_markSitEntryDirty, if_pos several,
      Sbi.getSecno] at sum ⊢
    by_cases own : secno = sbi.getSegno blkaddr / sbi.segsPerSec
    · subst own
      rw [if_pos rfl, ← before _ inMain'] at sum
      rw [Function.update_self]
      have atLeast := validBlocks_le_sectionSum sbi state.sit.sentries
        (sbi.getSegno blkaddr)
      have boundBefore := sectionSum_lt inMain' fun other inMain'' =>
        (accounted.entry other inMain'').le
      rw [← before _ inMain'] at atLeast boundBefore
      rcases fits with ⟨rfl, _⟩ | ⟨rfl, valid⟩
      · rw [addWord_one (by omega)]
        omega
      · have positive := old.valid_pos inSegment valid
        rw [addWord_neg_one (by omega) (by omega)]
        omega
    · rw [if_neg own, add_zero, Nat.cast_inj] at sum
      rw [Function.update_of_ne own, before _ inMain', sum]
  · exact dirtySentries_markSitEntryDirty inMain accounted.dirty
  · intro other inMain' clean
    simp only [dirtySentriesBitmap_markSitEntryDirty] at clean
    have different : other ≠ sbi.getSegno blkaddr := by
      rintro rfl
      simp at clean
    rw [BitMap.set_of_ne different] at clean
    simpa [different] using accounted.clean other inMain' clean

end F2fs
end StorageStack
