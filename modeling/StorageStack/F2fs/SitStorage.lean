import StorageStack.ShadowTable
import StorageStack.F2fs.SegmentManager

/-!
# What a mount reads back

`flush_sit_entries` writes the dirty entries of the segment information table to the journal or to
the other copies of their SIT blocks.  As long as an entry which is not dirty is stored as it stands
in memory, every entry is stored so after the flush, and the copies of the SIT blocks to which the
last checkpoint refers are left alone.
-/

namespace StorageStack
namespace F2fs

open ShadowTable

variable {sbi : Sbi} {start state next : State}

/-! ## Stored entries -/

/-- The raw entry which `build_sit_entries` would read for a segment. -/
def State.storedSit (sbi : Sbi) (state : State) (segno : Nat) : RawSit :=
  rawSitEntry sbi (state.curseg .coldData).sumBlk state.sit.sitBitmap state.sitPages segno

/-- A raw entry has the type, the counter, the bit map and the time of an entry in memory. -/
structure Records (raw : RawSit) (se : SegEntry) : Prop where
  type : getSitType raw = se.type
  validBlocks : getSitVblocks raw = se.validBlocks
  validMap : raw.validMap = se.curValidMap
  mtime : raw.mtime = se.mtime

/-- The counter and the type of an entry fit their bits in a raw entry. -/
def SegEntry.Packable (se : SegEntry) : Prop :=
  se.validBlocks < 2 ^ sitVblocksShift ∧ se.type < 2 ^ (16 - sitVblocksShift)

theorem records_segInfoToRawSit {se : SegEntry} (packable : se.Packable) :
    Records (segInfoToRawSit se) se := by
  have count : se.validBlocks < 1024 := packable.1
  have log : se.type < 64 := packable.2
  have packed : (se.type <<< sitVblocksShift ||| se.validBlocks) % 2 ^ 16 =
      se.type * 1024 + se.validBlocks := by
    rw [← Nat.shiftLeft_add_eq_or_of_lt packable.1, Nat.shiftLeft_eq]
    exact Nat.mod_eq_of_lt (by simp only [sitVblocksShift]; omega)
  refine ⟨?_, ?_, rfl, rfl⟩
  · rw [getSitType, segInfoToRawSit, packed, Nat.shiftRight_eq_div_pow]
    simp only [sitVblocksShift]
    omega
  · rw [getSitVblocks, segInfoToRawSit, packed, Nat.and_two_pow_sub_one_eq_mod]
    simp only [sitVblocksShift]
    omega

/-- The segment numbers in the journal slots. -/
def SummaryBlock.sitKeys (sum : SummaryBlock) (index : Nat) : Nat := (sum.sitJournal index).segno

/-- The place of one of the two copies of a SIT block. -/
def Sbi.sitAddr (sbi : Sbi) (offset : Nat) (second : Bool) : Nat :=
  if second then sbi.sitBaseAddr + offset + sbi.sitBlocks else sbi.sitBaseAddr + offset

theorem currentSitAddr_eq (sitBitmap : BitMap) (segno : Nat) :
    currentSitAddr sbi sitBitmap segno =
      sbi.sitAddr (segno / sitEntryPerBlock) (sitBitmap (segno / sitEntryPerBlock)) := rfl

theorem storedSit_eq (segno : Nat) :
    state.storedSit sbi segno =
      lookup (state.curseg .coldData).sumBlk.sitKeys (state.curseg .coldData).sumBlk.nSits
        (fun index => ((state.curseg .coldData).sumBlk.sitJournal index).se)
        (stored sitEntryPerBlock sbi.sitAddr state.sitPages state.sit.sitBitmap) segno := rfl

theorem separate_sitAddr : Separate sbi.sitAddr sbi.sitBlocks := by
  intro left left_lt right right_lt here there equal
  cases here <;> cases there <;> simp [Sbi.sitAddr] at equal ⊢ <;> omega

/-- Every segment has a SIT block. -/
def Sbi.SitFits (sbi : Sbi) : Prop :=
  ∀ segno < sbi.mainSegments, segno / sitEntryPerBlock < sbi.sitBlocks

theorem nextSitAddr_eq {sitBitmap : BitMap} {segno : Nat}
    (inside : segno / sitEntryPerBlock < sbi.sitBlocks) :
    nextSitAddr sbi (currentSitAddr sbi sitBitmap segno) =
      sbi.sitAddr (segno / sitEntryPerBlock) (!sitBitmap (segno / sitEntryPerBlock)) := by
  rw [currentSitAddr_eq]
  generalize segno / sitEntryPerBlock = offset at inside ⊢
  unfold nextSitAddr Sbi.sitAddr
  cases sitBitmap offset with
  | false =>
      simp only [Bool.false_eq_true, if_false, Bool.not_false, if_true]
      rw [if_pos (by omega)]
  | true =>
      simp only [if_true, Bool.not_true, Bool.false_eq_true, if_false]
      rw [if_neg (by omega)]
      omega

/-- The table on the device and the table in memory fit together: every entry which is not dirty is
stored as it stands in memory. -/
structure SitRecorded (sbi : Sbi) (state : State) : Prop where
  counted : state.sit.dirtySentries = state.sit.dirtySentriesBitmap.popCount sbi.mainSegments
  packable : ∀ segno < sbi.mainSegments, (state.sit.sentries segno).Packable
  journal : JournalBounded sbi (state.curseg .coldData).sumBlk
  distinct : Distinct (state.curseg .coldData).sumBlk.sitKeys (state.curseg .coldData).sumBlk.nSits
  stored : ∀ segno < sbi.mainSegments, state.sit.dirtySentriesBitmap segno = false →
    Records (state.storedSit sbi segno) (state.sit.sentries segno)

theorem SitRecorded.congr (recorded : SitRecorded sbi state) (sit : next.sit = state.sit)
    (curseg : next.curseg = state.curseg) (sitPages : next.sitPages = state.sitPages) :
    SitRecorded sbi next where
  counted := sit ▸ recorded.counted
  packable := sit ▸ recorded.packable
  journal := curseg ▸ recorded.journal
  distinct := curseg ▸ recorded.distinct
  stored segno inMain clean := by
    rw [State.storedSit, sit, curseg, sitPages]
    exact recorded.stored segno inMain (sit ▸ clean)

/-! ## The course of a flush -/

/-- What stays of an entry when it is written. -/
structure SameEntry (before after : SegEntry) : Prop where
  type : after.type = before.type
  validBlocks : after.validBlocks = before.validBlocks
  curValidMap : after.curValidMap = before.curValidMap
  mtime : after.mtime = before.mtime

theorem SameEntry.refl (se : SegEntry) : SameEntry se se := ⟨rfl, rfl, rfl, rfl⟩

theorem SameEntry.records {before after : SegEntry} (same : SameEntry before after) {raw : RawSit}
    (records : Records raw before) : Records raw after :=
  ⟨records.type.trans same.type.symm, records.validBlocks.trans same.validBlocks.symm,
    records.validMap.trans same.curValidMap.symm, records.mtime.trans same.mtime.symm⟩

/-- The journal slot of a segment. -/
def State.sitSlot (state : State) (segno : Nat) : Option Nat :=
  indexOf (state.curseg .coldData).sumBlk.sitKeys (state.curseg .coldData).sumBlk.nSits segno

/-- The raw entry of one segment has been written. -/
structure EntryWritten (sbi : Sbi) (target : SitTarget) (segno : Nat) (state next : State) :
    Prop where
  sit : next.sit = state.sit
  warnings : next.warnings = state.warnings
  journal : JournalBounded sbi (next.curseg .coldData).sumBlk
  distinct : Distinct (next.curseg .coldData).sumBlk.sitKeys (next.curseg .coldData).sumBlk.nSits
  stored : ∀ other < sbi.mainSegments, next.storedSit sbi other =
    if other = segno then segInfoToRawSit (state.sit.sentries segno)
    else state.storedSit sbi other
  count : (next.curseg .coldData).sumBlk.nSits ≤ (state.curseg .coldData).sumBlk.nSits + 1
  slots : ∀ other ≠ segno, state.sitSlot other = none → next.sitSlot other = none
  pages : ∀ address, target ≠ .page address → next.sitPages address = state.sitPages address

theorem sitKeys_update {sum sum' : SummaryBlock} {index segno : Nat} {raw : RawSit}
    (journal : sum'.sitJournal = Function.update sum.sitJournal index ⟨segno, raw⟩) :
    sum'.sitKeys = Function.update sum.sitKeys index segno := by
  funext other
  by_cases same : other = index
  · simp [SummaryBlock.sitKeys, journal, same]
  · simp [SummaryBlock.sitKeys, journal, same]

theorem sitValues_update (sum : SummaryBlock) (index segno : Nat) (raw : RawSit) :
    (fun other => (Function.update sum.sitJournal index (⟨segno, raw⟩ : SitJournalEntry) other).se) =
      Function.update (fun other => (sum.sitJournal other).se) index raw := by
  funext other
  by_cases same : other = index
  · simp [same]
  · simp [same]

theorem lookupJournal_of_slot {sum : SummaryBlock} {segno index : Nat}
    (slot : indexOf sum.sitKeys sum.nSits segno = some index) :
    lookupJournalInCursum sum segno = some (sum, index) := by
  have found : (List.range sum.nSits).find? (fun index => (sum.sitJournal index).segno == segno) =
      some index := slot
  rw [lookupJournalInCursum, found]

theorem lookupJournal_of_absent {sum : SummaryBlock} {segno : Nat}
    (absent : indexOf sum.sitKeys sum.nSits segno = none) :
    lookupJournalInCursum sum segno =
      if sum.nSits < sitJournalEntries then some ({ sum with nSits := sum.nSits + 1 }, sum.nSits)
      else none := by
  have missed : (List.range sum.nSits).find? (fun index => (sum.sitJournal index).segno == segno) =
      none := absent
  rw [lookupJournalInCursum, missed]

/-- An entry is written to the journal when it has a slot there or there is a free one. -/
theorem writeRawSit_journal (recorded : SitRecorded sbi state) {segno : Nat}
    (inMain : segno < sbi.mainSegments)
    (room : (state.curseg .coldData).sumBlk.nSits < sitJournalEntries) :
    ∃ next, writeRawSit .journal segno state = some next ∧
      EntryWritten sbi .journal segno state next := by
  have lookup_some : ∃ found, lookupJournalInCursum (state.curseg .coldData).sumBlk segno =
      some found := by
    unfold lookupJournalInCursum
    split
    · exact ⟨_, rfl⟩
    · rw [if_pos room]
      exact ⟨_, rfl⟩
  obtain ⟨⟨sum, index⟩, found⟩ := lookup_some
  refine ⟨setColdSum
    { sum with
      sitJournal := Function.update sum.sitJournal index
        ⟨segno, segInfoToRawSit (state.sit.sentries segno)⟩ } state, ?_, ?_⟩
  · simp only [writeRawSit, found, Option.map_some]
  have bounded := lookupJournal_bounded (segInfoToRawSit (state.sit.sentries segno))
    recorded.journal inMain found
  cases slot : state.sitSlot segno with
  | some old =>
      rw [lookupJournal_of_slot slot] at found
      obtain ⟨rfl, rfl⟩ := Prod.mk.inj (Option.some.inj found)
      have keys : Function.update (state.curseg .coldData).sumBlk.sitKeys old segno =
          (state.curseg .coldData).sumBlk.sitKeys := by
        rw [← (indexOf_some slot).2]
        exact Function.update_eq_self _ _
      exact
        { sit := rfl
          warnings := rfl
          journal := by simpa [setColdSum] using bounded
          distinct := by
            simp only [setColdSum, setCurseg_self]
            rw [sitKeys_update rfl, keys]
            exact recorded.distinct
          stored := fun other _ => by
            rw [storedSit_eq, storedSit_eq]
            simp only [setColdSum, setCurseg_self]
            rw [sitKeys_update rfl, keys, sitValues_update]
            exact lookup_overwrite _ other slot
          count := by simp [setColdSum]
          slots := fun other _ absent => by
            simp only [State.sitSlot, setColdSum, setCurseg_self]
            rw [sitKeys_update rfl, keys]
            exact absent
          pages := fun _ _ => rfl }
  | none =>
      rw [lookupJournal_of_absent slot, if_pos room] at found
      obtain ⟨rfl, rfl⟩ := Prod.mk.inj (Option.some.inj found)
      exact
        { sit := rfl
          warnings := rfl
          journal := by simpa [setColdSum] using bounded
          distinct := by
            simp only [setColdSum, setCurseg_self]
            rw [sitKeys_update rfl]
            exact distinct_push recorded.distinct slot
          stored := fun other _ => by
            rw [storedSit_eq, storedSit_eq]
            simp only [setColdSum, setCurseg_self]
            rw [sitKeys_update rfl, sitValues_update]
            exact lookup_push _ other recorded.distinct slot
          count := by simp [setColdSum]
          slots := fun other ne absent => by
            simp only [State.sitSlot, setColdSum, setCurseg_self]
            rw [sitKeys_update rfl]
            exact (indexOf_push other recorded.distinct slot).trans (by rw [if_neg ne]; exact absent)
          pages := fun _ _ => rfl }

/-- An entry which is not in the journal is written to the current copy of its block. -/
theorem writeRawSit_page (fits : sbi.SitFits) (recorded : SitRecorded sbi state) {segno : Nat}
    (inMain : segno < sbi.mainSegments) (absent : state.sitSlot segno = none) :
    ∃ next, writeRawSit (.page (currentSitAddr sbi state.sit.sitBitmap segno)) segno state =
      some next ∧
      EntryWritten sbi (.page (currentSitAddr sbi state.sit.sitBitmap segno)) segno state next := by
  refine ⟨_, rfl, ?_⟩
  exact
    { sit := rfl
      warnings := rfl
      journal := recorded.journal
      distinct := recorded.distinct
      stored := fun other inMain' => by
        have block :=
          @stored_write _ sitEntryPerBlock _ _ state.sitPages state.sit.sitBitmap segno other
            separate_sitAddr (segInfoToRawSit (state.sit.sentries segno)) (fits segno inMain)
            (fits other inMain')
        rw [storedSit_eq, storedSit_eq]
        by_cases same : other = segno
        · subst same
          rw [if_pos rfl] at block ⊢
          exact (lookup_of_absent absent).trans block
        · rw [if_neg same] at block ⊢
          exact lookup_congr fun _ => block
      count := Nat.le_succ _
      slots := fun _ _ absent => absent
      pages := fun address ne =>
        Function.update_of_ne (fun same => ne (congrArg SitTarget.page same.symm)) _ _ }

/-- The entry of a segment fits the target. -/
def TargetFits (sbi : Sbi) (state : State) (segno : Nat) : SitTarget → Prop
  | .journal => (state.curseg .coldData).sumBlk.nSits < sitJournalEntries
  | .page blkaddr =>
      blkaddr = currentSitAddr sbi state.sit.sitBitmap segno ∧ state.sitSlot segno = none

theorem writeRawSit_stored {target : SitTarget} (fits : sbi.SitFits)
    (recorded : SitRecorded sbi state) {segno : Nat} (inMain : segno < sbi.mainSegments)
    (fit : TargetFits sbi state segno target) :
    ∃ next, writeRawSit target segno state = some next ∧
      EntryWritten sbi target segno state next := by
  cases target with
  | journal => exact writeRawSit_journal recorded inMain fit
  | page blkaddr =>
      obtain ⟨rfl, absent⟩ := fit
      exact writeRawSit_page fits recorded inMain absent

/-! ## Discard candidates -/

theorem queueDiscard_cpc (force : Bool) (segno : Nat) (queue : State × CpControl)
    (run : Nat × Nat) : (queueDiscard sbi force segno queue run).2 =
      { queue.2 with trimmed := (queueDiscard sbi force segno queue run).2.trimmed } := by
  simp only [queueDiscard]
  split <;> rfl

theorem foldl_queueDiscard_cpc (force : Bool) (segno : Nat) (runs : List (Nat × Nat))
    (queue : State × CpControl) : (runs.foldl (queueDiscard sbi force segno) queue).2 =
      { queue.2 with
        trimmed := (runs.foldl (queueDiscard sbi force segno) queue).2.trimmed } := by
  induction runs generalizing queue with
  | nil => rfl
  | cons run runs ih => rw [List.foldl_cons, ih, queueDiscard_cpc]

/-- Collecting the candidates of a segment of the main area fills the list of discards only. -/
theorem addDiscardAddrs_total (state : State) {cpc : CpControl} (inMain : cpc.trimStart < sbi.mainSegments) :
    ∃ queued, addDiscardAddrs sbi (state, cpc) = some queued ∧
      queued.1 = { state with
        discardList := queued.1.discardList, nrDiscards := queued.1.nrDiscards } ∧
      queued.2 = { cpc with trimmed := queued.2.trimmed } := by
  have added : ∃ queued, addDiscardAddrs sbi (state, cpc) = some queued ∧
      queued.2 = { cpc with trimmed := queued.2.trimmed } := by
    simp only [addDiscardAddrs, if_neg (show ¬ sbi.mainSegments ≤ cpc.trimStart by omega)]
    split
    · exact ⟨_, rfl, rfl⟩
    · split
      · split
        · exact ⟨_, rfl, rfl⟩
        · exact ⟨_, rfl, rfl⟩
      · split
        · exact ⟨_, rfl, rfl⟩
        · exact ⟨_, rfl, foldl_queueDiscard_cpc _ _ _ _⟩
  obtain ⟨queued, added, cpc_eq⟩ := added
  exact ⟨queued, added, addDiscardAddrs_state added, cpc_eq⟩

/-! ## Entries -/

/-- The range of a trim is kept. -/
structure SameTrim (before after : CpControl) : Prop where
  reason : after.reason = before.reason
  trimEnd : after.trimEnd = before.trimEnd

/-- The entries of some segments have been flushed. -/
structure EntriesFlushed (sbi : Sbi) (target : SitTarget) (segnos : List Nat)
    (state next : State) : Prop where
  recorded : SitRecorded sbi next
  same : ∀ segno, SameEntry (state.sit.sentries segno) (next.sit.sentries segno)
  bitmap : ∀ segno, next.sit.dirtySentriesBitmap segno = true ↔
    state.sit.dirtySentriesBitmap segno = true ∧ segno ∉ segnos
  dirty : next.sit.dirtySentries + segnos.length = state.sit.dirtySentries
  sitBitmap : next.sit.sitBitmap = state.sit.sitBitmap
  warnings : next.warnings = state.warnings
  count : (next.curseg .coldData).sumBlk.nSits ≤
    (state.curseg .coldData).sumBlk.nSits + segnos.length
  slots : ∀ segno ∉ segnos, state.sitSlot segno = none → next.sitSlot segno = none
  pages : ∀ address, target ≠ .page address → next.sitPages address = state.sitPages address

/-- An entry which has been written becomes clean. -/
theorem EntryWritten.flushed {target : SitTarget} {segno : Nat} {written : State}
    (recorded : SitRecorded sbi state) (inMain : segno < sbi.mainSegments)
    (isDirty : state.sit.dirtySentriesBitmap segno = true)
    (write : EntryWritten sbi target segno state written) :
    EntriesFlushed sbi target [segno] state
      { written with sit := markSitEntryClean segno written.sit } := by
  have fewer := BitMap.popCount_clear inMain isDirty
  have counted := recorded.counted
  have kept : ∀ other, SameEntry (state.sit.sentries other)
      ((markSitEntryClean segno state.sit).sentries other) := by
    intro other
    by_cases same : other = segno
    · subst same
      simp only [markSitEntryClean, Function.update_self]
      exact ⟨rfl, rfl, rfl, rfl⟩
    · simp only [markSitEntryClean, Function.update_of_ne same]
      exact .refl _
  refine
    { recorded := ⟨?_, ?_, write.journal, write.distinct, ?_⟩
      same := ?_, bitmap := ?_, dirty := ?_, sitBitmap := ?_
      warnings := write.warnings
      count := write.count
      slots := fun other absent => write.slots other fun same => absent (by simp [same])
      pages := write.pages }
  · rw [write.sit]
    simp only [markSitEntryClean]
    omega
  · intro other inMain'
    rw [write.sit]
    have packable := recorded.packable other inMain'
    obtain ⟨type, validBlocks, _, _⟩ := kept other
    exact ⟨validBlocks ▸ packable.1, type ▸ packable.2⟩
  · intro other inMain' clean
    rw [write.sit] at clean ⊢
    have stored : State.storedSit sbi
        { written with sit := markSitEntryClean segno state.sit } other =
          written.storedSit sbi other := by
      simp only [State.storedSit, markSitEntryClean, write.sit]
    rw [stored, write.stored other inMain']
    apply (kept other).records
    split
    · next same =>
        rw [same]
        exact records_segInfoToRawSit (recorded.packable segno inMain)
    · next ne =>
        simp only [markSitEntryClean, BitMap.clear_of_ne ne] at clean
        exact recorded.stored other inMain' clean
  · rw [write.sit]
    exact kept
  · intro other
    rw [write.sit]
    simp only [markSitEntryClean, BitMap.clear_apply, List.mem_singleton]
    split
    · next same => simp [same]
    · next ne => simp [ne]
  · rw [write.sit]
    simp only [markSitEntryClean, List.length_singleton]
    omega
  · rw [write.sit]
    rfl

theorem EntriesFlushed.nil {target : SitTarget} (recorded : SitRecorded sbi state) :
    EntriesFlushed sbi target [] state state where
  recorded := recorded
  same _ := .refl _
  bitmap _ := by simp
  dirty := rfl
  sitBitmap := rfl
  warnings := rfl
  count := Nat.le_refl _
  slots _ _ absent := absent
  pages _ _ := rfl

theorem SameEntry.trans {before middle after : SegEntry} (first : SameEntry before middle)
    (second : SameEntry middle after) : SameEntry before after :=
  ⟨second.type.trans first.type, second.validBlocks.trans first.validBlocks,
    second.curValidMap.trans first.curValidMap, second.mtime.trans first.mtime⟩

theorem EntriesFlushed.append {target : SitTarget} {left right : List Nat} {middle : State}
    (first : EntriesFlushed sbi target left state middle)
    (second : EntriesFlushed sbi target right middle next) :
    EntriesFlushed sbi target (left ++ right) state next where
  recorded := second.recorded
  same segno := (first.same segno).trans (second.same segno)
  bitmap segno := by
    rw [second.bitmap, first.bitmap, List.mem_append, not_or, and_assoc]
  dirty := by
    have fewer := first.dirty
    have fewer' := second.dirty
    rw [List.length_append]
    omega
  sitBitmap := second.sitBitmap.trans first.sitBitmap
  warnings := second.warnings.trans first.warnings
  count := by
    have more := first.count
    have more' := second.count
    rw [List.length_append]
    omega
  slots segno absent free := by
    rw [List.mem_append, not_or] at absent
    exact second.slots segno absent.2 (first.slots segno absent.1 free)
  pages address other := (second.pages address other).trans (first.pages address other)

/-- Flushing one dirty entry whose target fits. -/
theorem flushSitEntry_flushed {target : SitTarget} {segno : Nat} (cpc : CpControl)
    (fits : sbi.SitFits) (recorded : SitRecorded sbi state) (inMain : segno < sbi.mainSegments)
    (isDirty : state.sit.dirtySentriesBitmap segno = true)
    (fit : TargetFits sbi state segno target) :
    ∃ flushed, flushSitEntry sbi target (state, cpc) segno = some flushed ∧
      EntriesFlushed sbi target [segno] state flushed.1 ∧ SameTrim cpc flushed.2 := by
  have queue : ∃ queued, (if state.nrDiscards < sbi.maxDiscards then
        addDiscardAddrs sbi (state, { cpc with trimStart := segno })
      else some (state, cpc)) = some queued ∧
        queued.1 = { state with
          discardList := queued.1.discardList, nrDiscards := queued.1.nrDiscards } ∧
        SameTrim cpc queued.2 := by
    split
    · obtain ⟨queued, added, state_eq, cpc_eq⟩ :=
        addDiscardAddrs_total state (show { cpc with trimStart := segno }.trimStart < _ from inMain)
      refine ⟨queued, added, state_eq, ?_⟩
      rw [cpc_eq]
      exact ⟨rfl, rfl⟩
    · exact ⟨_, rfl, rfl, rfl, rfl⟩
  obtain ⟨⟨queued, cpc'⟩, queue, state_eq, trim⟩ := queue
  simp only at state_eq
  have recorded' : SitRecorded sbi queued := by
    apply recorded.congr <;> rw [state_eq]
  have fit' : TargetFits sbi queued segno target := by
    rw [state_eq]
    cases target with
    | journal => exact fit
    | page blkaddr => exact fit
  have isDirty' : queued.sit.dirtySentriesBitmap segno = true := by
    rw [state_eq]
    exact isDirty
  obtain ⟨written, write, effect⟩ := writeRawSit_stored fits recorded' inMain fit'
  refine ⟨({ written with sit := markSitEntryClean segno written.sit }, cpc'), ?_, ?_, trim⟩
  · simp only [flushSitEntry, queue, Option.bind_some, write, Option.map_some]
  · have entry := effect.flushed recorded' inMain isDirty'
    rw [state_eq] at entry
    exact
      { recorded := entry.recorded, same := entry.same, bitmap := entry.bitmap
        dirty := entry.dirty, sitBitmap := entry.sitBitmap, warnings := entry.warnings
        count := entry.count, slots := entry.slots, pages := entry.pages }

/-- The entries of a set fit the target. -/
def EntriesFit (sbi : Sbi) (state : State) (segnos : List Nat) : SitTarget → Prop
  | .journal => (state.curseg .coldData).sumBlk.nSits + segnos.length ≤ sitJournalEntries
  | .page blkaddr => ∀ segno ∈ segnos,
      blkaddr = currentSitAddr sbi state.sit.sitBitmap segno ∧ state.sitSlot segno = none

theorem EntriesFit.head {target : SitTarget} {segno : Nat} {segnos : List Nat}
    (fit : EntriesFit sbi state (segno :: segnos) target) : TargetFits sbi state segno target := by
  cases target with
  | journal =>
      simp only [EntriesFit, List.length_cons] at fit
      simp only [TargetFits]
      omega
  | page blkaddr => exact fit segno List.mem_cons_self

theorem EntriesFit.tail {target : SitTarget} {segno : Nat} {segnos : List Nat}
    (fit : EntriesFit sbi state (segno :: segnos) target) (absent : segno ∉ segnos)
    (flushed : EntriesFlushed sbi target [segno] state next) :
    EntriesFit sbi next segnos target := by
  cases target with
  | journal =>
      have count := flushed.count
      simp only [EntriesFit, List.length_cons, List.length_nil] at fit count ⊢
      omega
  | page blkaddr =>
      intro other mem
      obtain ⟨address, free⟩ := fit other (List.mem_cons_of_mem _ mem)
      refine ⟨by rw [flushed.sitBitmap]; exact address, flushed.slots other ?_ free⟩
      rintro same
      exact absent (List.mem_singleton.mp same ▸ mem)

theorem flushSegnos_flushed {target : SitTarget} {segnos : List Nat} (cpc : CpControl)
    (fits : sbi.SitFits) (recorded : SitRecorded sbi state)
    (inMain : ∀ segno ∈ segnos, segno < sbi.mainSegments)
    (isDirty : ∀ segno ∈ segnos, state.sit.dirtySentriesBitmap segno = true)
    (distinct : segnos.Nodup) (fit : EntriesFit sbi state segnos target) :
    ∃ flushed, segnos.foldlM (flushSitEntry sbi target) (state, cpc) = some flushed ∧
      EntriesFlushed sbi target segnos state flushed.1 ∧ SameTrim cpc flushed.2 := by
  induction segnos generalizing state cpc with
  | nil => exact ⟨_, rfl, .nil recorded, rfl, rfl⟩
  | cons segno segnos ih =>
      obtain ⟨absent, distinct⟩ := List.nodup_cons.mp distinct
      obtain ⟨⟨next, cpc'⟩, flush, entry, trim⟩ := flushSitEntry_flushed cpc fits
        recorded (inMain segno List.mem_cons_self) (isDirty segno List.mem_cons_self) fit.head
      have stillDirty : ∀ other ∈ segnos, next.sit.dirtySentriesBitmap other = true := by
        intro other mem
        refine (entry.bitmap other).mpr ⟨isDirty other (List.mem_cons_of_mem _ mem), ?_⟩
        intro same
        exact absent (List.mem_singleton.mp same ▸ mem)
      obtain ⟨flushed, later, rest, trim'⟩ := ih cpc' entry.recorded
        (fun other mem => inMain other (List.mem_cons_of_mem _ mem)) stillDirty distinct
        (fit.tail absent entry)
      refine ⟨flushed, ?_, entry.append rest, trim'.reason.trans trim.reason,
        trim'.trimEnd.trans trim.trimEnd⟩
      rw [List.foldlM_cons, flush]
      exact later

end F2fs
end StorageStack
