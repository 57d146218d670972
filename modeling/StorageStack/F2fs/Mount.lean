import StorageStack.F2fs.CheckpointSteps

/-!
# Mounting

`build_segment_manager` sets up the segment manager from a checkpoint: it restores the six logs,
reads the segment information table and derives the free maps and the dirty lists from it.  On an
image whose logs stand on free blocks the result has the invariant.
-/

namespace StorageStack
namespace F2fs

/-- What the segment manager needs of `struct f2fs_checkpoint`. -/
structure Checkpoint where
  validBlockCount : Nat
  /-- `cur_data_segno` and `cur_node_segno`. -/
  curSegno : CursegType → Nat
  /-- `cur_data_blkoff` and `cur_node_blkoff`. -/
  curBlkoff : CursegType → Nat
  allocType : CursegType → AllocType
  /-- `sit_ver_bitmap`. -/
  sitBitmap : BitMap

/-- What the segment manager reads from the device. -/
structure Image where
  ckpt : Checkpoint
  /-- The summary blocks of the logs, which the checkpoint or the summary area holds. -/
  summaries : CursegType → SummaryBlock
  sumPages : Nat → SummaryBlock
  sitPages : Nat → Nat → RawSit

/-! ## Building the segment manager -/

/-- A zeroed `struct seg_entry`. -/
def SegEntry.zero : SegEntry := ⟨0, .empty, 0, .empty, 0, 0⟩

/-- `build_sit_info`. -/
def buildSitInfo (image : Image) : SitInfo where
  sentries _ := .zero
  secEntries _ := 0
  dirtySentriesBitmap := .empty
  dirtySentries := 0
  writtenValidBlocks := image.ckpt.validBlockCount % 2 ^ 32
  maxMtime := 0
  sitBitmap := image.ckpt.sitBitmap

/-- `build_free_segmap`: all segments are taken as used at first. -/
def buildFreeSegmap : FreeSegmap where
  freeSegments := 0
  freeSections := 0
  freeSegmap _ := true
  freeSecmap _ := true

/-- The state in which `build_segment_manager` restores the logs. -/
def unbuilt (image : Image) : State where
  sit := buildSitInfo image
  free := buildFreeSegmap
  dirty := ⟨fun _ => .empty, fun _ => 0, .empty⟩
  curseg type := ⟨image.summaries type, .lfs, nullSegno, 0, 0, 0⟩
  sumPages := image.sumPages
  sitPages := image.sitPages
  discardList := []
  nrDiscards := 0
  issuedDiscards := []
  lastVictim := 0
  curVictimSec := nullSegno
  porDoing := false
  needFsck := false
  warnings := []

/-- One round of `restore_curseg_summaries`. -/
def restoreCurseg (sbi : Sbi) (ckpt : Checkpoint) (state : State) (type : CursegType) :
    Option State :=
  (resetCurseg sbi type false
      (state.setCurseg type { state.curseg type with nextSegno := ckpt.curSegno type })).map
    fun state =>
      state.setCurseg type
        { state.curseg type with
          allocType := ckpt.allocType type, nextBlkoff := ckpt.curBlkoff type }

/-- `restore_curseg_summaries`. -/
def restoreCursegSummaries (sbi : Sbi) (ckpt : Checkpoint) (state : State) : Option State :=
  CursegType.all.foldlM (restoreCurseg sbi ckpt) state

/-- The raw entry of a segment: from the journal, else from the current SIT block. -/
def rawSitEntry (sbi : Sbi) (sum : SummaryBlock) (sitBitmap : BitMap)
    (sitPages : Nat → Nat → RawSit) (segno : Nat) : RawSit :=
  match (List.range sum.nSits).find? fun index => (sum.sitJournal index).segno == segno with
  | some index => (sum.sitJournal index).se
  | none => sitPages (currentSitAddr sbi sitBitmap segno) (segno % sitEntryPerBlock)

/-- One round of `build_sit_entries`.  Without `CONFIG_F2FS_CHECK_FS`, `check_block_count` only asks
for `fsck`. -/
def buildSitEntry (sbi : Sbi) (state : State) (segno : Nat) : State :=
  let raw := rawSitEntry sbi (state.curseg .coldData).sumBlk state.sit.sitBitmap state.sitPages segno
  let se := segInfoFromRawSit raw
  { state with
    needFsck := state.needFsck || decide (sbi.blocksPerSeg < getSitVblocks raw)
    sit :=
      { state.sit with
        sentries := Function.update state.sit.sentries segno se
        secEntries :=
          if 1 < sbi.segsPerSec then
            Function.update state.sit.secEntries (sbi.getSecno segno)
              ((state.sit.secEntries (sbi.getSecno segno) + se.validBlocks) % 2 ^ 32)
          else state.sit.secEntries } }

/-- `build_sit_entries`. -/
def buildSitEntries (sbi : Sbi) (state : State) : State :=
  (List.range sbi.mainSegments).foldl (buildSitEntry sbi) state

/-- `init_free_segmap`. -/
def initFreeSegmap (sbi : Sbi) (state : State) : State :=
  let freed := (List.range sbi.mainSegments).foldl
    (fun free segno =>
      if (state.sit.sentries segno).validBlocks = 0 then setFree sbi segno free else free)
    state.free
  { state with
    free := CursegType.all.foldl
      (fun free type => setTestAndInuse sbi (state.curseg type).segno free) freed }

/-- One round of `init_dirty_segmap`. -/
def initDirtySegment (sbi : Sbi) (state : State) (segno : Nat) : State :=
  let validBlocks := getValidBlocks sbi state segno 0
  if validBlocks = sbi.blocksPerSeg ∨ validBlocks = 0 then state
  else if sbi.blocksPerSeg < validBlocks then bugOn .initDirtySegmap true state
  else locateDirtyType segno .dirty state

/-- `init_dirty_segmap`, over the segments in use. -/
def initDirtySegmap (sbi : Sbi) (state : State) : State :=
  (state.free.freeSegmap.setBits sbi.mainSegments).foldl (initDirtySegment sbi) state

/-- `build_segment_manager`. -/
def buildSegmentManager (sbi : Sbi) (mtime : Nat) (image : Image) : Option State :=
  (restoreCursegSummaries sbi image.ckpt (unbuilt image)).map fun state =>
    let state := initDirtySegmap sbi (initFreeSegmap sbi (buildSitEntries sbi state))
    -- `init_min_max_mtime`
    { state with sit := { state.sit with maxMtime := mtime } }

/-- The raw entry the image holds for a segment. -/
def Image.rawSit (sbi : Sbi) (image : Image) (segno : Nat) : RawSit :=
  rawSitEntry sbi (image.summaries .coldData) image.ckpt.sitBitmap image.sitPages segno

/-- An image whose table is well formed and whose logs are consistent with it. -/
structure ImageConsistent (sbi : Sbi) (image : Image) : Prop where
  counts : ∀ segno < sbi.mainSegments, getSitVblocks (image.rawSit sbi segno) =
    (image.rawSit sbi segno).validMap.popCount sbi.blocksPerSeg
  types : ∀ segno < sbi.mainSegments, ∃ log : CursegType,
    getSitType (image.rawSit sbi segno) = log.toNat
  inMain : ∀ type, image.ckpt.curSegno type < sbi.mainSegments
  distinct : ∀ left right, image.ckpt.curSegno left = image.ckpt.curSegno right → left = right
  ownType : ∀ type, getSitType (image.rawSit sbi (image.ckpt.curSegno type)) = type.toNat
  inSegment : ∀ type, image.ckpt.curBlkoff type < sbi.blocksPerSeg
  here : ∀ type, (image.rawSit sbi (image.ckpt.curSegno type)).validMap
    (image.ckpt.curBlkoff type) = false
  behind : ∀ type, image.ckpt.allocType type = .lfs → ∀ offset < sbi.blocksPerSeg,
    image.ckpt.curBlkoff type ≤ offset →
      (image.rawSit sbi (image.ckpt.curSegno type)).validMap offset = false
  journal : JournalBounded sbi (image.summaries .coldData)

variable {sbi : Sbi} {image : Image} {state next : State}

/-! ## The logs -/

/-- The logs in `types` are restored; of the rest only the types of entries have changed. -/
structure Restored (sbi : Sbi) (ckpt : Checkpoint) (types : List CursegType) (state next : State) :
    Prop where
  segno : ∀ type ∈ types, (next.curseg type).segno = ckpt.curSegno type
  nextBlkoff : ∀ type ∈ types, (next.curseg type).nextBlkoff = ckpt.curBlkoff type
  allocType : ∀ type ∈ types, (next.curseg type).allocType = ckpt.allocType type
  others : ∀ type ∉ types, next.curseg type = state.curseg type
  nSits : ∀ type, (next.curseg type).sumBlk.nSits = (state.curseg type).sumBlk.nSits
  sitJournal : ∀ type, (next.curseg type).sumBlk.sitJournal = (state.curseg type).sumBlk.sitJournal
  valid : ∀ segno, (next.sit.sentries segno).validBlocks = (state.sit.sentries segno).validBlocks
  rest : next = { state with
    curseg := next.curseg, sit := { state.sit with sentries := next.sit.sentries } }

theorem restoreCurseg_restored {ckpt : Checkpoint} {type : CursegType}
    (restored : restoreCurseg sbi ckpt state type = some next) :
    Restored sbi ckpt [type] state next := by
  have inMain : ckpt.curSegno type < sbi.mainSegments := by
    by_contra outside
    simp only [restoreCurseg, resetCurseg, setCurseg_self] at restored
    rw [if_pos (by omega)] at restored
    cases restored
  simp only [restoreCurseg] at restored
  rw [resetCurseg_eq (by simpa using inMain)] at restored
  obtain rfl := Option.some.inj restored
  have curseg : ∀ other ≠ type, ∀ (first second third : Curseg) (sit : SitInfo),
      (({ (state.setCurseg type first).setCurseg type second with
        sit := sit } : State).setCurseg type third).curseg other = state.curseg other := by
    intro other ne first second third sit
    simp [State.setCurseg, ne]
  refine
    { segno := ?_, nextBlkoff := ?_, allocType := ?_, others := ?_, nSits := ?_, sitJournal := ?_
      valid := ?_, rest := ?_ }
  · simp
  · simp
  · simp
  · intro other away
    exact curseg other (by simpa using away) _ _ _ _
  · intro other
    by_cases same : other = type
    · subst same
      simp
    · rw [curseg other same]
  · intro other
    by_cases same : other = type
    · subst same
      simp
    · rw [curseg other same]
  · intro segno
    simp only [State.setCurseg]
    rw [sentries_setSitEntryType]
  · simp [State.setCurseg, setSitEntryType]

theorem Restored.trans {ckpt : Checkpoint} {type : CursegType} {types : List CursegType}
    {middle : State} (first : Restored sbi ckpt [type] state middle)
    (second : Restored sbi ckpt types middle next) (fresh : type ∉ types) :
    Restored sbi ckpt (type :: types) state next := by
  have kept := second.others type fresh
  refine
    { segno := ?_, nextBlkoff := ?_, allocType := ?_, others := ?_
      nSits := fun other => (second.nSits other).trans (first.nSits other)
      sitJournal := fun other => (second.sitJournal other).trans (first.sitJournal other)
      valid := fun segno => (second.valid segno).trans (first.valid segno), rest := ?_ }
  · intro other mem
    obtain rfl | later := List.mem_cons.mp mem
    · rw [kept]
      exact first.segno other (by simp)
    · exact second.segno other later
  · intro other mem
    obtain rfl | later := List.mem_cons.mp mem
    · rw [kept]
      exact first.nextBlkoff other (by simp)
    · exact second.nextBlkoff other later
  · intro other mem
    obtain rfl | later := List.mem_cons.mp mem
    · rw [kept]
      exact first.allocType other (by simp)
    · exact second.allocType other later
  · intro other away
    rw [List.mem_cons, not_or] at away
    rw [second.others other away.2]
    exact first.others other (by simpa using away.1)
  · rw [second.rest, first.rest]

theorem foldlM_restoreCurseg {ckpt : Checkpoint} {types : List CursegType}
    (distinct : types.Nodup)
    (restored : types.foldlM (restoreCurseg sbi ckpt) state = some next) :
    Restored sbi ckpt types state next := by
  induction types generalizing state with
  | nil =>
      obtain rfl : state = next := by simpa using restored
      exact
        { segno := by simp, nextBlkoff := by simp, allocType := by simp, others := fun _ _ => rfl
          nSits := fun _ => rfl, sitJournal := fun _ => rfl, valid := fun _ => rfl, rest := rfl }
  | cons type types ih =>
      rw [List.foldlM_cons, Option.bind_eq_bind, Option.bind_eq_some_iff] at restored
      obtain ⟨middle, first, later⟩ := restored
      obtain ⟨fresh, distinct⟩ := List.nodup_cons.mp distinct
      exact (restoreCurseg_restored first).trans (ih distinct later) fresh

/-! ## The table -/

/-- The table while `build_sit_entries` has read the entries below `count`. -/
structure EntriesBuilt (sbi : Sbi) (raw : Nat → RawSit) (count : Nat) (state next : State) :
    Prop where
  sentries : ∀ segno, next.sit.sentries segno =
    if segno < count then segInfoFromRawSit (raw segno) else state.sit.sentries segno
  sections : 1 < sbi.segsPerSec → ∀ secno < sbi.totalSections,
    next.sit.secEntries secno = sectionSum sbi next.sit.sentries secno
  rest : next = { state with
    needFsck := next.needFsck
    sit := { state.sit with
      sentries := next.sit.sentries, secEntries := next.sit.secEntries } }

theorem buildSitEntry_built {count : Nat} {middle : State}
    (bounded : ∀ segno < sbi.mainSegments, getSitVblocks (rawSitEntry sbi
      (state.curseg .coldData).sumBlk state.sit.sitBitmap state.sitPages segno) ≤ sbi.blocksPerSeg)
    (zeroed : ∀ segno, (state.sit.sentries segno).validBlocks = 0)
    (inMain : count < sbi.mainSegments)
    (built : EntriesBuilt sbi (rawSitEntry sbi (state.curseg .coldData).sumBlk
      state.sit.sitBitmap state.sitPages) count state middle) :
    EntriesBuilt sbi (rawSitEntry sbi (state.curseg .coldData).sumBlk state.sit.sitBitmap
      state.sitPages) (count + 1) state (buildSitEntry sbi middle count) := by
  have reads : rawSitEntry sbi (middle.curseg .coldData).sumBlk middle.sit.sitBitmap
      middle.sitPages = rawSitEntry sbi (state.curseg .coldData).sumBlk state.sit.sitBitmap
        state.sitPages := by
    rw [built.rest]
  generalize rawSitEntry sbi (state.curseg .coldData).sumBlk state.sit.sitBitmap
    state.sitPages = raw at *
  have unread : (middle.sit.sentries count).validBlocks = 0 := by
    rw [built.sentries, if_neg (lt_irrefl _)]
    exact zeroed count
  have small : ∀ segno < sbi.mainSegments, (Function.update middle.sit.sentries count
      (segInfoFromRawSit (raw count)) segno).validBlocks ≤ sbi.blocksPerSeg := by
    intro segno inMain'
    by_cases same : segno = count
    · subst same
      simpa [segInfoFromRawSit] using bounded segno inMain'
    · rw [Function.update_of_ne same, built.sentries]
      split
      · exact bounded segno inMain'
      · rw [zeroed]
        exact Nat.zero_le _
  refine ⟨fun segno => ?_, fun several secno inMain' => ?_, ?_⟩
  · simp only [buildSitEntry, reads]
    by_cases same : segno = count
    · subst same
      simp
    · rw [Function.update_of_ne same, built.sentries]
      have shifted : segno < count + 1 ↔ segno < count := by omega
      simp only [shifted]
  · have sum := sectionSum_update sbi middle.sit.sentries count secno
      (segInfoFromRawSit (raw count))
    have fits := sectionSum_lt inMain' small
    rw [unread] at sum
    simp only [buildSitEntry, reads, if_pos several, Sbi.getSecno]
    by_cases own : secno = count / sbi.segsPerSec
    · subst own
      rw [if_pos rfl] at sum
      rw [Function.update_self, built.sections several _ inMain', Nat.mod_eq_of_lt (by omega)]
      omega
    · rw [if_neg own] at sum
      rw [Function.update_of_ne own, built.sections several _ inMain']
      omega
  · rw [buildSitEntry, built.rest]

theorem buildSitEntries_built
    (bounded : ∀ segno < sbi.mainSegments, getSitVblocks (rawSitEntry sbi
      (state.curseg .coldData).sumBlk state.sit.sitBitmap state.sitPages segno) ≤ sbi.blocksPerSeg)
    (zeroed : ∀ segno, (state.sit.sentries segno).validBlocks = 0)
    (unsummed : ∀ secno, state.sit.secEntries secno = 0) :
    EntriesBuilt sbi (rawSitEntry sbi (state.curseg .coldData).sumBlk state.sit.sitBitmap
      state.sitPages) sbi.mainSegments state (buildSitEntries sbi state) := by
  have general : ∀ count ≤ sbi.mainSegments, EntriesBuilt sbi (rawSitEntry sbi
      (state.curseg .coldData).sumBlk state.sit.sitBitmap state.sitPages) count state
        ((List.range count).foldl (buildSitEntry sbi) state) := by
    intro count
    induction count with
    | zero =>
        intro _
        refine ⟨fun segno => by simp, fun _ secno _ => ?_, rfl⟩
        simp [sectionSum, zeroed, unsummed]
    | succ count ih =>
        intro inside
        rw [List.range_succ, List.foldl_append, List.foldl_cons, List.foldl_nil]
        exact buildSitEntry_built bounded zeroed (by omega) (ih (by omega))
  exact general sbi.mainSegments (le_refl _)

/-! ## The free maps -/

theorem freeSegmap_freeEmpty (sentries : Nat → SegEntry) (segnos : List Nat) (free : FreeSegmap)
    (bit : Nat) :
    (segnos.foldl (fun free segno =>
        if (sentries segno).validBlocks = 0 then setFree sbi segno free else free)
      free).freeSegmap bit =
        if bit ∈ segnos ∧ (sentries bit).validBlocks = 0 then false else free.freeSegmap bit := by
  induction segnos generalizing free with
  | nil => simp
  | cons segno segnos ih =>
      rw [List.foldl_cons, ih]
      by_cases same : bit = segno
      · subst same
        by_cases empty : (sentries bit).validBlocks = 0
        · simp [empty, freeSegmap_setFree]
        · simp [empty]
      · by_cases empty : (sentries segno).validBlocks = 0
        · simp [empty, freeSegmap_setFree, BitMap.clear_of_ne same, same]
        · simp [empty, same]

theorem secmapFree_freeEmpty {sentries : Nat → SegEntry} {segnos : List Nat} {free : FreeSegmap}
    (secmap : SecmapFree sbi free) :
    SecmapFree sbi (segnos.foldl (fun free segno =>
      if (sentries segno).validBlocks = 0 then setFree sbi segno free else free) free) := by
  induction segnos generalizing free with
  | nil => exact secmap
  | cons segno segnos ih =>
      apply ih
      beta_reduce
      split
      · exact secmapFree_setFree segno secmap
      · exact secmap

theorem freeSegmap_useLogs (curseg : CursegType → Curseg) (types : List CursegType)
    (free : FreeSegmap) (bit : Nat) :
    (types.foldl (fun free type => setTestAndInuse sbi (curseg type).segno free)
      free).freeSegmap bit =
        (free.freeSegmap bit || types.any fun type => bit == (curseg type).segno) := by
  induction types generalizing free with
  | nil => simp
  | cons type types ih =>
      rw [List.foldl_cons, ih, freeSegmap_setTestAndInuse, BitMap.set_apply, List.any_cons]
      by_cases same : bit = (curseg type).segno
      · simp [same]
      · simp [same, beq_false_of_ne same]

theorem secmapFree_useLogs {curseg : CursegType → Curseg} {types : List CursegType}
    {free : FreeSegmap} (secmap : SecmapFree sbi free) :
    SecmapFree sbi
      (types.foldl (fun free type => setTestAndInuse sbi (curseg type).segno free) free) := by
  induction types generalizing free with
  | nil => exact secmap
  | cons type types ih => exact ih (secmapFree_setTestAndInuse _ secmap)

/-- After `init_free_segmap` the segments with valid blocks and the current ones are in use. -/
theorem freeSegmap_initFreeSegmap {segno : Nat} (state : State)
    (inMain : segno < sbi.mainSegments) (unbuilt : state.free = buildFreeSegmap) :
    (initFreeSegmap sbi state).free.freeSegmap segno =
      (decide ((state.sit.sentries segno).validBlocks ≠ 0) || isCurseg state segno) := by
  simp only [initFreeSegmap, freeSegmap_useLogs, freeSegmap_freeEmpty, List.mem_range, inMain,
    true_and, unbuilt, buildFreeSegmap, isCurseg]
  by_cases empty : (state.sit.sentries segno).validBlocks = 0
  · simp [empty]
  · simp [empty]

theorem secmapFree_initFreeSegmap (unbuilt : state.free = buildFreeSegmap) :
    SecmapFree sbi (initFreeSegmap sbi state).free := by
  refine secmapFree_useLogs (secmapFree_freeEmpty ?_)
  rw [unbuilt]
  rintro segno clear
  cases clear

/-! ## The dirty lists -/

/-- The lists of a segment in use after `init_dirty_segmap`. -/
structure ListedAtMount (sbi : Sbi) (state : State) (segno : Nat) (lists : DirtyType → Bool) :
    Prop where
  current : isCurseg state segno = true → Unlisted lists
  pre : lists .pre = false
  dirty : isCurseg state segno = false → lists .dirty =
    decide (0 < (state.sit.sentries segno).validBlocks ∧
      (state.sit.sentries segno).validBlocks < sbi.blocksPerSeg)
  log : OwnLog (state.sit.sentries segno) lists

theorem initDirtySegment_listed {segno : Nat} {log : CursegType} (inMain : segno < sbi.mainSegments)
    (counted : Counted sbi state.dirty)
    (bounded : (state.sit.sentries segno).validBlocks ≤ sbi.blocksPerSeg)
    (type_eq : (state.sit.sentries segno).type = log.toNat)
    (unlisted : Unlisted (listsOf state.dirty segno)) :
    ∃ dirty, initDirtySegment sbi state segno = { state with dirty := dirty } ∧
      DirtyFrame sbi segno state.dirty dirty ∧ ListedAtMount sbi state segno (listsOf dirty segno) := by
  have blocks : getValidBlocks sbi state segno 0 = (state.sit.sentries segno).validBlocks := by
    simp [getValidBlocks]
  unfold initDirtySegment
  simp only [blocks]
  split
  · next full_or_empty =>
      refine ⟨state.dirty, rfl, ⟨counted, fun _ _ => rfl⟩, fun _ => unlisted, unlisted .pre, ?_,
        unlisted.stale.log⟩
      intro _
      rw [unlisted .dirty, eq_comm, decide_eq_false_iff_not]
      omega
  · next partly =>
      rw [if_neg (by omega)]
      cases current : isCurseg state segno with
      | true =>
          refine ⟨state.dirty, by simp [locateDirtyType, current], ⟨counted, fun _ _ => rfl⟩,
            fun _ => unlisted, unlisted .pre, fun notCurrent => ?_, unlisted.stale.log⟩
          cases current.symm.trans notCurrent
      | false =>
          refine ⟨addDirty (.log log) segno (addDirty .dirty segno state.dirty),
            by simp [locateDirtyType, current, type_eq],
            ⟨counted_addDirty _ inMain (counted_addDirty _ inMain counted), ?_⟩,
            fun isCurrent => ?_, ?_, fun _ => ?_, ?_⟩
          · intro other ne
            funext type
            simp [listsOf, dirtySegmap_addDirty, ne]
          · cases current.symm.trans isCurrent
          · simpa [listsOf, dirtySegmap_addDirty] using unlisted .pre
          · simp only [listsOf, dirtySegmap_addDirty]
            simp
            omega
          · intro other
            by_cases same : other = log
            · subst same
              simp [listsOf, dirtySegmap_addDirty, type_eq]
            · have absent := unlisted (.log other)
              have different : ¬ log.toNat = other.toNat :=
                fun equal => same (CursegType.toNat_injective equal).symm
              simpa [listsOf, dirtySegmap_addDirty, same, type_eq, different] using absent

theorem foldl_initDirtySegment {segnos : List Nat} (distinct : segnos.Nodup)
    (inMain : ∀ segno ∈ segnos, segno < sbi.mainSegments)
    (bounded : ∀ segno ∈ segnos, (state.sit.sentries segno).validBlocks ≤ sbi.blocksPerSeg)
    (typed : ∀ segno ∈ segnos, ∃ log : CursegType, (state.sit.sentries segno).type = log.toNat)
    (counted : Counted sbi state.dirty)
    (unlisted : ∀ segno ∈ segnos, Unlisted (listsOf state.dirty segno)) :
    ∃ dirty, segnos.foldl (initDirtySegment sbi) state = { state with dirty := dirty } ∧
      Counted sbi dirty ∧
      (∀ segno ∉ segnos, listsOf dirty segno = listsOf state.dirty segno) ∧
      ∀ segno ∈ segnos, ListedAtMount sbi state segno (listsOf dirty segno) := by
  induction segnos generalizing state with
  | nil => exact ⟨state.dirty, rfl, counted, fun _ _ => rfl, fun _ mem => absurd mem (by simp)⟩
  | cons segno segnos ih =>
      obtain ⟨fresh, distinct⟩ := List.nodup_cons.mp distinct
      obtain ⟨log, type_eq⟩ := typed segno List.mem_cons_self
      obtain ⟨dirty, step, frame, listed⟩ := initDirtySegment_listed
        (inMain segno List.mem_cons_self) counted (bounded segno List.mem_cons_self) type_eq
        (unlisted segno List.mem_cons_self)
      have ne_of_mem : ∀ other ∈ segnos, other ≠ segno := by
        rintro other mem rfl
        exact fresh mem
      obtain ⟨dirty', loop, counted', others, lists⟩ :=
        @ih { state with dirty := dirty } distinct
          (fun other mem => inMain other (List.mem_cons_of_mem _ mem))
          (fun other mem => bounded other (List.mem_cons_of_mem _ mem))
          (fun other mem => typed other (List.mem_cons_of_mem _ mem)) frame.counted
          (fun other mem => by
            rw [frame.others other (ne_of_mem other mem)]
            exact unlisted other (List.mem_cons_of_mem _ mem))
      refine ⟨dirty', by rw [List.foldl_cons, step, loop], counted', ?_, ?_⟩
      · intro other away
        rw [List.mem_cons, not_or] at away
        rw [others other away.2]
        exact frame.others other away.1
      · intro other mem
        obtain rfl | later := List.mem_cons.mp mem
        · rw [others other fresh]
          exact listed
        · obtain ⟨current, pre, isDirty, own⟩ := lists other later
          exact ⟨current, pre, isDirty, own⟩

/-! ## The mounted state -/

/-- The segment manager as it stands after a mount of `image`. -/
structure MountedFrom (sbi : Sbi) (image : Image) (state : State) : Prop where
  sentries : ∀ segno < sbi.mainSegments,
    state.sit.sentries segno = segInfoFromRawSit (image.rawSit sbi segno)
  sections : 1 < sbi.segsPerSec → ∀ secno < sbi.totalSections,
    state.sit.secEntries secno = sectionSum sbi state.sit.sentries secno
  cleanBitmap : state.sit.dirtySentriesBitmap = .empty
  clean : state.sit.dirtySentries = 0
  segno : ∀ type, (state.curseg type).segno = image.ckpt.curSegno type
  nextBlkoff : ∀ type, (state.curseg type).nextBlkoff = image.ckpt.curBlkoff type
  allocType : ∀ type, (state.curseg type).allocType = image.ckpt.allocType type
  nSits : (state.curseg .coldData).sumBlk.nSits = (image.summaries .coldData).nSits
  sitJournal : (state.curseg .coldData).sumBlk.sitJournal = (image.summaries .coldData).sitJournal
  segmap : ∀ segno < sbi.mainSegments, state.free.freeSegmap segno =
    (decide ((state.sit.sentries segno).validBlocks ≠ 0) || isCurseg state segno)
  secmap : SecmapFree sbi state.free
  counted : Counted sbi state.dirty
  unused : ∀ segno < sbi.mainSegments, state.free.freeSegmap segno = false →
    Unlisted (listsOf state.dirty segno)
  lists : ∀ segno < sbi.mainSegments, state.free.freeSegmap segno = true →
    ListedAtMount sbi state segno (listsOf state.dirty segno)
  warnings : state.warnings = []
  porDoing : state.porDoing = false

theorem rawSit_le (consistent : ImageConsistent sbi image) {segno : Nat}
    (inMain : segno < sbi.mainSegments) :
    getSitVblocks (image.rawSit sbi segno) ≤ sbi.blocksPerSeg := by
  rw [consistent.counts segno inMain]
  exact BitMap.popCount_le _ _

/-- The state between the logs and the dirty lists. -/
theorem buildSitEntries_restored {restored : State} (consistent : ImageConsistent sbi image)
    (logs : Restored sbi image.ckpt CursegType.all (unbuilt image) restored) :
    EntriesBuilt sbi (image.rawSit sbi) sbi.mainSegments restored (buildSitEntries sbi restored) := by
  have reads : rawSitEntry sbi (restored.curseg .coldData).sumBlk restored.sit.sitBitmap
      restored.sitPages = image.rawSit sbi := by
    have bitmap : restored.sit.sitBitmap = image.ckpt.sitBitmap := by
      rw [logs.rest]
      rfl
    have pages : restored.sitPages = image.sitPages := by
      rw [logs.rest]
      rfl
    funext segno
    simp only [rawSitEntry, Image.rawSit, logs.nSits, logs.sitJournal, bitmap, pages]
    rfl
  rw [← reads]
  refine buildSitEntries_built (fun segno inMain => ?_) (fun segno => ?_) (fun secno => ?_)
  · rw [reads]
    exact rawSit_le consistent inMain
  · rw [logs.valid]
    rfl
  · rw [logs.rest]
    rfl

theorem buildSegmentManager_mounted {mtime : Nat} (consistent : ImageConsistent sbi image)
    (built : buildSegmentManager sbi mtime image = some state) : MountedFrom sbi image state := by
  simp only [buildSegmentManager, Option.map_eq_some_iff] at built
  obtain ⟨restored, restore, rfl⟩ := built
  have logs := foldlM_restoreCurseg (by decide) restore
  have entries := buildSitEntries_restored consistent logs
  generalize buildSitEntries sbi restored = read at *
  have table : ∀ segno < sbi.mainSegments,
      read.sit.sentries segno = segInfoFromRawSit (image.rawSit sbi segno) := by
    intro segno inMain
    rw [entries.sentries, if_pos inMain]
  have freshFree : read.free = buildFreeSegmap := by
    rw [entries.rest, logs.rest]
    rfl
  have freshDirty : read.dirty = (unbuilt image).dirty := by
    rw [entries.rest, logs.rest]
  have unlisted : ∀ segno, Unlisted (listsOf read.dirty segno) := by
    intro segno type
    rw [freshDirty]
    rfl
  have counted : Counted sbi read.dirty := by
    intro type
    rw [freshDirty]
    exact (BitMap.popCount_empty _).symm
  have curseg : read.curseg = restored.curseg := by
    rw [entries.rest]
  have members : ∀ segno,
      segno ∈ (initFreeSegmap sbi read).free.freeSegmap.setBits sbi.mainSegments ↔
        segno < sbi.mainSegments ∧ (initFreeSegmap sbi read).free.freeSegmap segno = true :=
    fun segno => BitMap.mem_setBits
  obtain ⟨dirty, loop, counted', others, lists⟩ :=
    @foldl_initDirtySegment sbi (initFreeSegmap sbi read)
      ((initFreeSegmap sbi read).free.freeSegmap.setBits sbi.mainSegments)
      (BitMap.nodup_setBits _ _) (fun segno mem => ((members segno).mp mem).1)
      (fun segno mem => by
        have inMain := ((members segno).mp mem).1
        have entry : (initFreeSegmap sbi read).sit.sentries segno =
            segInfoFromRawSit (image.rawSit sbi segno) := table segno inMain
        rw [entry]
        exact rawSit_le consistent inMain)
      (fun segno mem => by
        have inMain := ((members segno).mp mem).1
        have entry : (initFreeSegmap sbi read).sit.sentries segno =
            segInfoFromRawSit (image.rawSit sbi segno) := table segno inMain
        rw [entry]
        exact consistent.types segno inMain)
      counted (fun segno _ => unlisted segno)
  rw [initDirtySegmap, loop]
  refine
    { sentries := table, sections := entries.sections, cleanBitmap := ?_, clean := ?_
      segno := fun type => ?_, nextBlkoff := fun type => ?_, allocType := fun type => ?_
      nSits := ?_, sitJournal := ?_
      segmap := fun segno inMain => freeSegmap_initFreeSegmap read inMain freshFree
      secmap := secmapFree_initFreeSegmap freshFree, counted := counted', unused := ?_
      lists := fun segno inMain used => ?_, warnings := ?_, porDoing := ?_ }
  · simp only [initFreeSegmap]
    rw [entries.rest, logs.rest]
    rfl
  · simp only [initFreeSegmap]
    rw [entries.rest, logs.rest]
    rfl
  · simp only [initFreeSegmap, curseg]
    exact logs.segno type (CursegType.mem_all type)
  · simp only [initFreeSegmap, curseg]
    exact logs.nextBlkoff type (CursegType.mem_all type)
  · simp only [initFreeSegmap, curseg]
    exact logs.allocType type (CursegType.mem_all type)
  · simp only [initFreeSegmap, curseg]
    exact logs.nSits .coldData
  · simp only [initFreeSegmap, curseg]
    exact logs.sitJournal .coldData
  · intro segno inMain unused
    have away : segno ∉ (initFreeSegmap sbi read).free.freeSegmap.setBits sbi.mainSegments := by
      intro mem
      exact absurd (((members segno).mp mem).2.symm.trans unused) (by simp)
    simp only [others segno away]
    exact unlisted segno
  · obtain ⟨current, pre, isDirty, own⟩ := lists segno ((members segno).mpr ⟨inMain, used⟩)
    exact ⟨current, pre, isDirty, own⟩
  · simp only [initFreeSegmap]
    rw [entries.rest, logs.rest]
    rfl
  · simp only [initFreeSegmap]
    rw [entries.rest, logs.rest]
    rfl

/-- A mounted state has the invariant, with every log ready. -/
theorem MountedFrom.consistent (mounted : MountedFrom sbi image state)
    (image_consistent : ImageConsistent sbi image) : Consistent sbi ∅ Set.univ state := by
  have inMain : ∀ type, (state.curseg type).segno < sbi.mainSegments := by
    intro type
    rw [mounted.segno]
    exact image_consistent.inMain type
  have used : ∀ type, state.free.freeSegmap (state.curseg type).segno = true := by
    intro type
    rw [mounted.segmap _ (inMain type), isCurseg_iff.mpr ⟨type, rfl⟩, Bool.or_true]
  have target : ∀ segno < sbi.mainSegments,
      (state.sit.sentries segno).targetMap = (image.rawSit sbi segno).validMap := by
    intro segno inMain'
    rw [mounted.sentries segno inMain']
    funext offset
    simp [SegEntry.targetMap, segInfoFromRawSit]
  have accounted : ∀ segno < sbi.mainSegments, SegAccounted sbi (state.sit.sentries segno) := by
    intro segno inMain'
    have count := image_consistent.counts segno inMain'
    rw [mounted.sentries segno inMain']
    refine ⟨count, count.trans ?_⟩
    refine BitMap.popCount_congr fun offset _ => ?_
    simp [segInfoFromRawSit]
  refine
    { sit := ⟨accounted, mounted.sections, ?_, fun segno inMain' _ offset _ => ?_⟩
      counted := mounted.counted, secmap := mounted.secmap
      typed := fun segno inMain' => ?_, inMain := inMain, distinct := fun left right equal => ?_
      used := used, ownType := fun type => ?_
      unlisted := fun type => (mounted.lists _ (inMain type) (used type)).current
        (isCurseg_iff.mpr ⟨type, rfl⟩)
      freeUnlisted := mounted.unused, freeEmpty := fun segno inMain' free offset inSegment => ?_
      stale := fun segno _ _ _ mem => absurd mem (Set.notMem_empty _)
      listed := fun segno inMain' inUse away _ => ?_, cursors := fun type _ => ?_
      quiet := by simp [mounted.warnings]
      journal := ⟨by rw [mounted.nSits]; exact image_consistent.journal.fits, ?_⟩ }
  · rw [mounted.clean, mounted.cleanBitmap, BitMap.popCount_empty]
  · rw [mounted.sentries segno inMain']
    rfl
  · rw [mounted.sentries segno inMain']
    exact image_consistent.types segno inMain'
  · rw [mounted.segno, mounted.segno] at equal
    exact image_consistent.distinct left right equal
  · rw [mounted.sentries _ (inMain type), mounted.segno]
    exact image_consistent.ownType type
  · rw [mounted.segmap segno inMain'] at free
    have empty : (state.sit.sentries segno).validBlocks = 0 := by
      simp only [Bool.or_eq_false_iff, decide_eq_false_iff_not, not_not] at free
      exact free.1
    have invalid := (accounted segno inMain').invalid_of_zero empty offset inSegment
    rw [target segno inMain']
    rw [mounted.sentries segno inMain'] at invalid
    exact invalid
  · have lists := mounted.lists segno inMain' inUse
    refine ⟨?_, lists.dirty away, lists.log⟩
    rw [mounted.segmap segno inMain', away, Bool.or_false, decide_eq_true_eq] at inUse
    rw [lists.pre, eq_comm, decide_eq_false_iff_not]
    exact inUse
  · refine ⟨?_, ?_, fun lfs offset inSegment from_cursor => ?_⟩
    · rw [mounted.nextBlkoff]
      exact image_consistent.inSegment type
    · rw [target _ (inMain type), mounted.segno, mounted.nextBlkoff]
      exact image_consistent.here type
    · rw [mounted.allocType] at lfs
      rw [mounted.nextBlkoff] at from_cursor
      rw [target _ (inMain type), mounted.segno]
      exact image_consistent.behind type lfs offset inSegment from_cursor
  · rw [mounted.nSits, mounted.sitJournal]
    exact image_consistent.journal.inMain

/-- `build_segment_manager` makes a consistent state of a consistent image, with every log ready. -/
theorem buildSegmentManager_consistent {mtime : Nat} (image_consistent : ImageConsistent sbi image)
    (built : buildSegmentManager sbi mtime image = some state) :
    Consistent sbi ∅ Set.univ state ∧ state.porDoing = false :=
  have mounted := buildSegmentManager_mounted image_consistent built
  ⟨mounted.consistent image_consistent, mounted.porDoing⟩

/-! ## A small volume -/

/-- A volume of ten segments with 64 blocks each, built with the disaggregated mapping. -/
def smallVolume : Sbi where
  seg0Blkaddr := 64
  startSegno := 2
  logBlocksPerSeg := 6
  segsPerSec := 1
  secsPerZone := 1
  totalSections := 10
  mainSegments := 10
  reservedSegments := 1
  sitBaseAddr := 64
  sitBlocks := 64
  maxDiscards := 0
  maxVictimSearch := 4096
  noheap := false
  discard := false
  f2fsDaMap := true
  log_bounds := by decide
  segsPerSec_pos := by decide
  secsPerZone_pos := by decide
  main_eq := rfl
  seg0_pos := by decide
  addresses_fit := by decide

/-- The table of `smallImage`: an empty segment for each log, a data segment with one block left,
and three free segments. -/
def smallRawSit (segno : Nat) : RawSit :=
  if segno < 6 then ⟨segno * 2 ^ sitVblocksShift, .empty, 0⟩
  else if segno = 6 then ⟨63, fun offset => decide (offset < 63), 0⟩
  else ⟨0, .empty, 0⟩

/-- A summary block without entries. -/
def emptySummaryBlock : SummaryBlock :=
  ⟨fun _ => ⟨0, 0, 0⟩, 0, fun _ => ⟨0, ⟨0, .empty, 0⟩⟩, .data⟩

/-- A checkpoint with every log at the start of a segment of its own. -/
def smallImage : Image where
  ckpt := ⟨63, CursegType.toNat, fun _ => 0, fun _ => .lfs, .empty⟩
  summaries _ := emptySummaryBlock
  sumPages _ := emptySummaryBlock
  sitPages _ := smallRawSit

theorem rawSit_smallImage {segno : Nat} (small : segno < 10) :
    smallImage.rawSit smallVolume segno = smallRawSit segno := by
  have inBlock : segno % sitEntryPerBlock = segno :=
    Nat.mod_eq_of_lt (show segno < 55 by omega)
  simp [Image.rawSit, rawSitEntry, smallImage, emptySummaryBlock, inBlock]

theorem rawSit_smallImage_log (type : CursegType) :
    smallImage.rawSit smallVolume type.toNat = ⟨type.toNat * 2 ^ sitVblocksShift, .empty, 0⟩ := by
  cases type <;> rw [rawSit_smallImage (by decide)] <;> rfl

theorem smallImage_consistent : ImageConsistent smallVolume smallImage where
  counts segno inMain := by
    have all : ∀ segno < 10, getSitVblocks (smallRawSit segno) =
        (smallRawSit segno).validMap.popCount 64 := by decide +kernel
    rw [rawSit_smallImage inMain]
    exact all segno inMain
  types segno inMain := by
    have all : ∀ segno < 10, ∃ log ∈ CursegType.all,
        getSitType (smallRawSit segno) = log.toNat := by decide +kernel
    obtain ⟨log, _, type_eq⟩ := all segno inMain
    exact ⟨log, by rw [rawSit_smallImage inMain, type_eq]⟩
  inMain type := by cases type <;> decide
  distinct _ _ equal := CursegType.toNat_injective equal
  ownType type := by
    rw [show smallImage.ckpt.curSegno type = type.toNat from rfl, rawSit_smallImage_log]
    cases type <;> rfl
  inSegment _ := Nat.two_pow_pos _
  here type := by
    rw [show smallImage.ckpt.curSegno type = type.toNat from rfl, rawSit_smallImage_log]
    rfl
  behind type _ offset _ _ := by
    rw [show smallImage.ckpt.curSegno type = type.toNat from rfl, rawSit_smallImage_log]
    rfl
  journal := ⟨Nat.zero_le _, fun _ small => absurd small (Nat.not_lt_zero _)⟩

end F2fs
end StorageStack
