import StorageStack.Execution
import StorageStack.F2fs.SitFlush

/-!
# Checkpoints keep the invariant

Writing the entries of the segment information table shrinks the sets of blocks that must not be
overwritten and leaves the rest of the segment manager alone.  When all dirty entries are written, a
prefree segment has no block left in either map, and a checkpoint may free it.
-/

namespace StorageStack
namespace F2fs

variable {sbi : Sbi} {ready : Set CursegType} {state next : State}

/-! ## Writing entries -/

/-- Entries have been written: what the invariant says about them still holds, and the rest of the
segment manager is unchanged. -/
structure Written (sbi : Sbi) (state next : State) : Prop where
  accounted : SitAccounted sbi next.sit
  journal : JournalBounded sbi (next.curseg .coldData).sumBlk
  free : next.free = state.free
  dirty : next.dirty = state.dirty
  segno : ∀ type, (next.curseg type).segno = (state.curseg type).segno
  nextBlkoff : ∀ type, (next.curseg type).nextBlkoff = (state.curseg type).nextBlkoff
  allocType : ∀ type, (next.curseg type).allocType = (state.curseg type).allocType
  type : ∀ segno, (next.sit.sentries segno).type = (state.sit.sentries segno).type
  valid : ∀ segno, (next.sit.sentries segno).validBlocks = (state.sit.sentries segno).validBlocks
  target : ∀ segno offset, (state.sit.sentries segno).targetMap offset = false →
    (next.sit.sentries segno).targetMap offset = false
  quiet : BugSite.updateSitEntry ∉ state.warnings → BugSite.updateSitEntry ∉ next.warnings
  porDoing : next.porDoing = state.porDoing

/-- A step which touches none of the structures of the invariant writes nothing. -/
theorem written_of_eq (accounted : SitAccounted sbi state.sit)
    (journal : JournalBounded sbi (state.curseg .coldData).sumBlk) (sit : next.sit = state.sit)
    (free : next.free = state.free) (dirty : next.dirty = state.dirty)
    (curseg : next.curseg = state.curseg)
    (quiet : BugSite.updateSitEntry ∉ state.warnings → BugSite.updateSitEntry ∉ next.warnings)
    (porDoing : next.porDoing = state.porDoing) : Written sbi state next where
  accounted := by rw [sit]; exact accounted
  journal := by rw [curseg]; exact journal
  free := free
  dirty := dirty
  segno _ := by rw [curseg]
  nextBlkoff _ := by rw [curseg]
  allocType _ := by rw [curseg]
  type _ := by rw [sit]
  valid _ := by rw [sit]
  target _ _ unset := by rw [sit]; exact unset
  quiet := quiet
  porDoing := porDoing

namespace Written

theorem refl (consistent : Consistent sbi ∅ ready state) : Written sbi state state :=
  written_of_eq consistent.sit consistent.journal rfl rfl rfl rfl id rfl

theorem trans {middle : State} (first : Written sbi state middle)
    (second : Written sbi middle next) : Written sbi state next where
  accounted := second.accounted
  journal := second.journal
  free := second.free.trans first.free
  dirty := second.dirty.trans first.dirty
  segno type := (second.segno type).trans (first.segno type)
  nextBlkoff type := (second.nextBlkoff type).trans (first.nextBlkoff type)
  allocType type := (second.allocType type).trans (first.allocType type)
  type segno := (second.type segno).trans (first.type segno)
  valid segno := (second.valid segno).trans (first.valid segno)
  target segno offset unset := second.target segno offset (first.target segno offset unset)
  quiet silent := second.quiet (first.quiet silent)
  porDoing := second.porDoing.trans first.porDoing

theorem isCurseg_eq (written : Written sbi state next) (segno : Nat) :
    isCurseg next segno = isCurseg state segno := by
  simp only [isCurseg, written.segno]

theorem cursorReady {type : CursegType} (written : Written sbi state next)
    (cursor : CursorReady sbi state type) : CursorReady sbi next type := by
  obtain ⟨inside, here, behind⟩ := cursor
  refine ⟨?_, ?_, fun lfs offset inSegment from_cursor => ?_⟩
  · rw [written.nextBlkoff]
    exact inside
  · rw [written.nextBlkoff, written.segno]
    exact written.target _ _ here
  · rw [written.allocType] at lfs
    rw [written.nextBlkoff] at from_cursor
    rw [written.segno]
    exact written.target _ _ (behind lfs offset inSegment from_cursor)

/-- Writing entries keeps the invariant. -/
theorem consistent {pending : Set Nat} (written : Written sbi state next)
    (consistent : Consistent sbi pending ready state) : Consistent sbi pending ready next := by
  have own : ∀ segno lists, OwnLog (state.sit.sentries segno) lists →
      OwnLog (next.sit.sentries segno) lists := by
    intro segno lists own log
    rw [written.type]
    exact own log
  refine
    { sit := written.accounted, counted := ?_, secmap := ?_, typed := ?_, inMain := ?_
      distinct := ?_, used := ?_, ownType := ?_, unlisted := ?_, freeUnlisted := ?_
      freeEmpty := ?_, stale := ?_, listed := ?_
      cursors := fun type mem => written.cursorReady (consistent.cursors type mem)
      quiet := written.quiet consistent.quiet, journal := written.journal }
  · rw [written.dirty]
    exact consistent.counted
  · rw [written.free]
    exact consistent.secmap
  · intro segno inMain
    rw [written.type]
    exact consistent.typed segno inMain
  · intro type
    rw [written.segno]
    exact consistent.inMain type
  · intro left right equal
    rw [written.segno, written.segno] at equal
    exact consistent.distinct left right equal
  · intro type
    rw [written.segno, written.free]
    exact consistent.used type
  · intro type
    rw [written.segno, written.type]
    exact consistent.ownType type
  · intro type
    rw [written.segno, written.dirty]
    exact consistent.unlisted type
  · rw [written.free, written.dirty]
    exact consistent.freeUnlisted
  · rw [written.free]
    intro segno inMain unused offset inSegment
    exact written.target _ _ (consistent.freeEmpty segno inMain unused offset inSegment)
  · intro segno inMain inUse away mem
    rw [written.free] at inUse
    rw [written.isCurseg_eq] at away
    rw [written.dirty]
    have stale := consistent.stale segno inMain inUse away mem
    exact ⟨stale.pre, own _ _ stale.log⟩
  · intro segno inMain inUse away absent
    rw [written.free] at inUse
    rw [written.isCurseg_eq] at away
    rw [written.dirty]
    have listed := consistent.listed segno inMain inUse away absent
    refine ⟨?_, ?_, own _ _ listed.log⟩
    · rw [written.valid]
      exact listed.pre
    · rw [written.valid]
      exact listed.dirty

end Written

@[simp] theorem bugOn_sit (site : BugSite) (condition : Bool) (state : State) :
    (bugOn site condition state).sit = state.sit := by
  unfold bugOn
  split <;> rfl

theorem written_bugOn {site : BugSite} {condition : Bool} (other : site ≠ .updateSitEntry)
    (accounted : SitAccounted sbi state.sit)
    (journal : JournalBounded sbi (state.curseg .coldData).sumBlk) :
    Written sbi state (bugOn site condition state) := by
  unfold bugOn
  split
  · refine written_of_eq accounted journal rfl rfl rfl rfl (fun silent => ?_) rfl
    simp [silent, Ne.symm other]
  · exact written_of_eq accounted journal rfl rfl rfl rfl id rfl

/-- Queueing discards touches nothing else. -/
theorem queueDiscard_state (force : Bool) (segno : Nat) (queue : State × CpControl)
    (run : Nat × Nat) : (queueDiscard sbi force segno queue run).1 =
      { queue.1 with
        discardList := (queueDiscard sbi force segno queue run).1.discardList
        nrDiscards := (queueDiscard sbi force segno queue run).1.nrDiscards } := by
  simp only [queueDiscard]
  split <;> rfl

theorem foldl_queueDiscard_state (force : Bool) (segno : Nat) (runs : List (Nat × Nat))
    (queue : State × CpControl) : (runs.foldl (queueDiscard sbi force segno) queue).1 =
      { queue.1 with
        discardList := (runs.foldl (queueDiscard sbi force segno) queue).1.discardList
        nrDiscards := (runs.foldl (queueDiscard sbi force segno) queue).1.nrDiscards } := by
  induction runs generalizing queue with
  | nil => rfl
  | cons run runs ih =>
      rw [List.foldl_cons, ih, queueDiscard_state]

theorem addDiscardAddrs_state {queue queued : State × CpControl}
    (added : addDiscardAddrs sbi queue = some queued) :
    queued.1 = { queue.1 with
      discardList := queued.1.discardList, nrDiscards := queued.1.nrDiscards } := by
  simp only [addDiscardAddrs] at added
  split at added
  · exact Option.some.inj added ▸ rfl
  · split at added
    · cases added
    · split at added
      · split at added
        · exact Option.some.inj added ▸ rfl
        · exact Option.some.inj added ▸ rfl
      · split at added
        · exact Option.some.inj added ▸ rfl
        · rw [← Option.some.inj added]
          exact foldl_queueDiscard_state _ _ _ _

theorem addDiscardAddrs_written {cpc : CpControl} {queued : State × CpControl}
    (accounted : SitAccounted sbi state.sit)
    (journal : JournalBounded sbi (state.curseg .coldData).sumBlk)
    (added : addDiscardAddrs sbi (state, cpc) = some queued) : Written sbi state queued.1 := by
  have state_eq := addDiscardAddrs_state added
  refine written_of_eq accounted journal ?_ ?_ ?_ ?_ ?_ ?_ <;> rw [state_eq]
  exact id

/-- A new summary block for the cold data log with a bounded journal. -/
theorem written_setColdSum {sum : SummaryBlock} (accounted : SitAccounted sbi state.sit)
    (journal : JournalBounded sbi sum) : Written sbi state (setColdSum sum state) := by
  have kept : ∀ type, ((setColdSum sum state).curseg type).segno = (state.curseg type).segno ∧
      ((setColdSum sum state).curseg type).nextBlkoff = (state.curseg type).nextBlkoff ∧
      ((setColdSum sum state).curseg type).allocType = (state.curseg type).allocType := by
    intro type
    by_cases same : type = .coldData
    · subst same
      simp [setColdSum]
    · simp [setColdSum, State.setCurseg, same]
  exact
    { accounted := accounted, journal := by simpa [setColdSum] using journal, free := rfl
      dirty := rfl, segno := fun type => (kept type).1, nextBlkoff := fun type => (kept type).2.1
      allocType := fun type => (kept type).2.2, type := fun _ => rfl, valid := fun _ => rfl
      target := fun _ _ => id, quiet := id, porDoing := rfl }

/-- A table with the same entries, apart from which of them are dirty. -/
theorem written_sit {sit : SitInfo} (accounted : SitAccounted sbi sit)
    (journal : JournalBounded sbi (state.curseg .coldData).sumBlk)
    (sentries : sit.sentries = state.sit.sentries) : Written sbi state { state with sit := sit } where
  accounted := accounted
  journal := journal
  free := rfl
  dirty := rfl
  segno _ := rfl
  nextBlkoff _ := rfl
  allocType _ := rfl
  type _ := by rw [sentries]
  valid _ := by rw [sentries]
  target _ _ unset := by rw [sentries]; exact unset
  quiet := id
  porDoing := rfl

/-! ## One entry -/

theorem lookupJournal_bounded {sum found : SummaryBlock} {segno index : Nat} (raw : RawSit)
    (bounded : JournalBounded sbi sum) (inMain : segno < sbi.mainSegments)
    (lookup : lookupJournalInCursum sum segno = some (found, index)) :
    JournalBounded sbi
      { found with sitJournal := Function.update found.sitJournal index ⟨segno, raw⟩ } := by
  have entries : ∀ count, (∀ other < count, other ≠ index →
      (found.sitJournal other).segno < sbi.mainSegments) → ∀ other < count,
        (Function.update found.sitJournal index ⟨segno, raw⟩ other).segno < sbi.mainSegments := by
    intro count others other small
    by_cases same : other = index
    · subst same
      simpa using inMain
    · rw [Function.update_of_ne same]
      exact others other small same
  unfold lookupJournalInCursum at lookup
  split at lookup
  · simp only [Option.some_inj, Prod.mk.injEq] at lookup
    obtain ⟨rfl, rfl⟩ := lookup
    exact ⟨bounded.fits, entries _ fun other small _ => bounded.inMain other small⟩
  · split at lookup
    · next room =>
        simp only [Option.some_inj, Prod.mk.injEq] at lookup
        obtain ⟨rfl, rfl⟩ := lookup
        exact ⟨room, entries (sum.nSits + 1) fun other small ne => bounded.inMain other (by omega)⟩
    · cases lookup

theorem writeRawSit_written {target : SitTarget} {segno : Nat}
    (accounted : SitAccounted sbi state.sit)
    (journal : JournalBounded sbi (state.curseg .coldData).sumBlk)
    (inMain : segno < sbi.mainSegments) (wrote : writeRawSit target segno state = some next) :
    Written sbi state next ∧ next.sit = state.sit := by
  cases target with
  | journal =>
      simp only [writeRawSit, Option.map_eq_some_iff, Prod.exists] at wrote
      obtain ⟨sum, index, lookup, rfl⟩ := wrote
      exact ⟨written_setColdSum accounted (lookupJournal_bounded _ journal inMain lookup), rfl⟩
  | page blkaddr =>
      obtain rfl := Option.some.inj wrote
      exact ⟨written_of_eq accounted journal rfl rfl rfl rfl id rfl, rfl⟩

theorem targetMap_checkpointed (se : SegEntry) : se.checkpointed.targetMap = se.curValidMap := by
  funext offset
  simp [SegEntry.targetMap, SegEntry.checkpointed]

theorem accounted_markSitEntryClean {segno : Nat} {sit : SitInfo}
    (accounted : SitAccounted sbi sit) (inMain : segno < sbi.mainSegments)
    (isDirty : sit.dirtySentriesBitmap segno = true) :
    SitAccounted sbi (markSitEntryClean segno sit) where
  entry other inMain' := by
    by_cases same : other = segno
    · subst same
      have old := (accounted.entry other inMain').valid
      refine ⟨by simpa [markSitEntryClean, SegEntry.checkpointed] using old, ?_⟩
      have united : (sit.sentries other).curValidMap.union (sit.sentries other).curValidMap =
          (sit.sentries other).curValidMap := by
        funext offset
        simp
      simpa [markSitEntryClean, SegEntry.checkpointed, united] using old
    · simpa [markSitEntryClean, same] using accounted.entry other inMain'
  sections several secno inMain' := by
    rw [markSitEntryClean, accounted.sections several secno inMain']
    refine sectionSum_congr fun other => ?_
    by_cases same : other = segno
    · subst same
      simp [SegEntry.checkpointed]
    · simp [same]
  dirty := by
    have fewer := BitMap.popCount_clear inMain isDirty
    have before := accounted.dirty
    simp only [markSitEntryClean]
    omega
  clean other inMain' clean offset inSegment := by
    by_cases same : other = segno
    · subst same
      simp [markSitEntryClean, SegEntry.checkpointed]
    · simp only [markSitEntryClean, BitMap.clear_of_ne same] at clean
      simpa [markSitEntryClean, same] using accounted.clean other inMain' clean offset inSegment

theorem written_markSitEntryClean {segno : Nat} (accounted : SitAccounted sbi state.sit)
    (journal : JournalBounded sbi (state.curseg .coldData).sumBlk)
    (inMain : segno < sbi.mainSegments)
    (isDirty : state.sit.dirtySentriesBitmap segno = true) :
    Written sbi state { state with sit := markSitEntryClean segno state.sit } where
  accounted := accounted_markSitEntryClean accounted inMain isDirty
  journal := journal
  free := rfl
  dirty := rfl
  segno _ := rfl
  nextBlkoff _ := rfl
  allocType _ := rfl
  type other := by
    by_cases same : other = segno
    · subst same
      simp [markSitEntryClean, SegEntry.checkpointed]
    · simp [markSitEntryClean, same]
  valid other := by
    by_cases same : other = segno
    · subst same
      simp [markSitEntryClean, SegEntry.checkpointed]
    · simp [markSitEntryClean, same]
  target other offset unset := by
    by_cases same : other = segno
    · subst same
      simp only [SegEntry.targetMap, BitMap.union_apply, Bool.or_eq_false_iff] at unset
      simp [markSitEntryClean, targetMap_checkpointed, unset.1]
    · simpa [markSitEntryClean, same] using unset
  quiet := id
  porDoing := rfl

/-- Flushing a dirty entry makes it clean and leaves the others dirty or clean. -/
theorem flushSitEntry_written {target : SitTarget} {segno : Nat}
    {flushing flushed : State × CpControl} (accounted : SitAccounted sbi flushing.1.sit)
    (journal : JournalBounded sbi (flushing.1.curseg .coldData).sumBlk)
    (inMain : segno < sbi.mainSegments)
    (isDirty : flushing.1.sit.dirtySentriesBitmap segno = true)
    (flush : flushSitEntry sbi target flushing segno = some flushed) :
    Written sbi flushing.1 flushed.1 ∧
      flushed.1.sit.dirtySentriesBitmap = flushing.1.sit.dirtySentriesBitmap.clear segno := by
  simp only [flushSitEntry, Option.bind_eq_some_iff, Option.map_eq_some_iff] at flush
  obtain ⟨queued, queue, stored, store, rfl⟩ := flush
  have queueing : Written sbi flushing.1 queued.1 ∧ queued.1.sit = flushing.1.sit := by
    split at queue
    · refine ⟨addDiscardAddrs_written accounted journal queue, ?_⟩
      rw [addDiscardAddrs_state queue]
    · obtain rfl := Option.some.inj queue
      exact ⟨written_of_eq accounted journal rfl rfl rfl rfl id rfl, rfl⟩
  obtain ⟨first, sit_eq⟩ := queueing
  obtain ⟨second, sit_eq'⟩ := writeRawSit_written first.accounted first.journal inMain store
  have stillDirty : stored.sit.dirtySentriesBitmap segno = true := by
    rw [sit_eq', sit_eq]
    exact isDirty
  refine ⟨(first.trans second).trans
    (written_markSitEntryClean second.accounted second.journal inMain stillDirty), ?_⟩
  simp only [markSitEntryClean, sit_eq', sit_eq]

/-! ## Sets of dirty entries -/

/-- The entries of one SIT block have a set. -/
def HasSet (sets : List SitEntrySet) (start : Nat) : Prop := ∃ ses ∈ sets, ses.startSegno = start

/-- Every dirty entry belongs to a set. -/
def Covered (sbi : Sbi) (sit : SitInfo) (sets : List SitEntrySet) : Prop :=
  ∀ segno < sbi.mainSegments, sit.dirtySentriesBitmap segno = true → HasSet sets (startSegno segno)

theorem hasSet_cons {ses : SitEntrySet} {sets : List SitEntrySet} {start : Nat} :
    HasSet (ses :: sets) start ↔ ses.startSegno = start ∨ HasSet sets start := by
  simp [HasSet]

theorem hasSet_adjustSitEntrySet {ses : SitEntrySet} {sets : List SitEntrySet} {start : Nat} :
    HasSet (adjustSitEntrySet ses sets) start ↔ HasSet (ses :: sets) start := by
  induction sets with
  | nil => rfl
  | cons next sets ih =>
      unfold adjustSitEntrySet
      split
      · rfl
      · simp only [hasSet_cons, ih]
        exact or_left_comm

theorem hasSet_countSitEntry {start other : Nat} {sets counted : List SitEntrySet}
    (count : countSitEntry start sets = some counted) :
    HasSet counted other ↔ other = start ∨ HasSet sets other := by
  induction sets generalizing counted with
  | nil => cases count
  | cons ses sets ih =>
      unfold countSitEntry at count
      split at count
      · next same =>
          obtain rfl := Option.some.inj count
          rw [hasSet_adjustSitEntrySet, hasSet_cons, hasSet_cons, same, eq_comm]
          tauto
      · obtain ⟨later, found, rfl⟩ := Option.map_eq_some_iff.mp count
        rw [hasSet_cons, hasSet_cons, ih found]
        exact or_left_comm

theorem hasSet_addSitEntry {sets : List SitEntrySet} {segno other : Nat} :
    HasSet (addSitEntry sets segno) other ↔ other = startSegno segno ∨ HasSet sets other := by
  unfold addSitEntry
  cases count : countSitEntry (startSegno segno) sets with
  | none =>
      rw [Option.getD_none, hasSet_cons]
      exact or_congr_left eq_comm
  | some counted => exact hasSet_countSitEntry count

theorem hasSet_foldl_addSitEntry {segnos : List Nat} {sets : List SitEntrySet} {other : Nat} :
    HasSet (segnos.foldl addSitEntry sets) other ↔
      (∃ segno ∈ segnos, other = startSegno segno) ∨ HasSet sets other := by
  induction segnos generalizing sets with
  | nil => simp
  | cons segno segnos ih =>
      rw [List.foldl_cons, ih, hasSet_addSitEntry, List.exists_mem_cons_iff]
      exact or_left_comm.trans or_assoc.symm

theorem covered_addSitsInSet (sit : SitInfo) : Covered sbi sit (addSitsInSet sbi sit) := by
  intro segno inMain isDirty
  refine hasSet_foldl_addSitEntry.mpr (.inl ⟨segno, ?_, rfl⟩)
  rw [BitMap.mem_setBits]
  exact ⟨inMain, isDirty⟩

/-- The state and the sets while `remove_sits_in_journal` runs. -/
structure Collected (sbi : Sbi) (state : State) (collected : State × List SitEntrySet) : Prop where
  written : Written sbi state collected.1
  covered : Covered sbi collected.1.sit collected.2

theorem removeSitInJournal_collected {segno : Nat} {marked next : State × List SitEntrySet}
    (collected : Collected sbi state marked)
    (removed : removeSitInJournal sbi segno marked = some next) : Collected sbi state next := by
  simp only [removeSitInJournal] at removed
  split at removed
  · cases removed
  · next inside =>
      obtain rfl := Option.some.inj removed
      have inMain : segno < sbi.mainSegments := by omega
      refine ⟨collected.written.trans (written_sit
        (accounted_markSitEntryDirty inMain collected.written.accounted)
        collected.written.journal (by simp)), ?_⟩
      intro other inMain' isDirty
      simp only [dirtySentriesBitmap_markSitEntryDirty, BitMap.set_apply] at isDirty
      cases already : marked.1.sit.dirtySentriesBitmap segno with
      | true =>
          simp only [if_true]
          apply collected.covered other inMain'
          split at isDirty
          · next same => exact same ▸ already
          · exact isDirty
      | false =>
          simp only [Bool.false_eq_true, if_false]
          rw [hasSet_addSitEntry]
          split at isDirty
          · next same => exact .inl (same ▸ rfl)
          · exact .inr (collected.covered other inMain' isDirty)

theorem removeSitsInJournal_collected {sets : List SitEntrySet}
    {next : State × List SitEntrySet} (consistent : Consistent sbi ∅ ready state)
    (covered : Covered sbi state.sit sets)
    (removed : removeSitsInJournal sbi state sets = some next) : Collected sbi state next := by
  simp only [removeSitsInJournal, Option.map_eq_some_iff] at removed
  obtain ⟨marked, loop, rfl⟩ := removed
  have collected : Collected sbi state marked :=
    Execution.foldlM_invariant (Collected sbi state)
      (fun _ _ _ _ kept step => removeSitInJournal_collected kept step)
      ⟨.refl consistent, covered⟩ loop
  have cleared : Written sbi marked.1
      (setColdSum { (marked.1.curseg .coldData).sumBlk with nSits := 0 } marked.1) :=
    written_setColdSum collected.written.accounted ⟨Nat.zero_le _, fun _ small => absurd small (Nat.not_lt_zero _)⟩
  exact ⟨collected.written.trans cleared, collected.covered⟩

/-! ## All entries -/

theorem flushSegnos_written {target : SitTarget} {segnos : List Nat}
    {flushing flushed : State × CpControl} (accounted : SitAccounted sbi flushing.1.sit)
    (journal : JournalBounded sbi (flushing.1.curseg .coldData).sumBlk)
    (inMain : ∀ segno ∈ segnos, segno < sbi.mainSegments)
    (isDirty : ∀ segno ∈ segnos, flushing.1.sit.dirtySentriesBitmap segno = true)
    (distinct : segnos.Nodup)
    (flush : segnos.foldlM (flushSitEntry sbi target) flushing = some flushed) :
    Written sbi flushing.1 flushed.1 ∧ ∀ other,
      flushed.1.sit.dirtySentriesBitmap other = true ↔
        flushing.1.sit.dirtySentriesBitmap other = true ∧ other ∉ segnos := by
  induction segnos generalizing flushing with
  | nil =>
      obtain rfl : flushing = flushed := by simpa using flush
      exact ⟨written_of_eq accounted journal rfl rfl rfl rfl id rfl, fun other => by simp⟩
  | cons segno segnos ih =>
      rw [List.foldlM_cons, Option.bind_eq_bind, Option.bind_eq_some_iff] at flush
      obtain ⟨next, first, later⟩ := flush
      obtain ⟨absent, distinct⟩ := List.nodup_cons.mp distinct
      obtain ⟨written, bitmap⟩ := flushSitEntry_written accounted journal
        (inMain segno List.mem_cons_self) (isDirty segno List.mem_cons_self) first
      have stillDirty : ∀ other ∈ segnos, next.1.sit.dirtySentriesBitmap other = true := by
        intro other mem
        have ne : other ≠ segno := by
          rintro rfl
          exact absent mem
        rw [bitmap, BitMap.clear_of_ne ne]
        exact isDirty other (List.mem_cons_of_mem _ mem)
      obtain ⟨rest, bits⟩ := ih written.accounted written.journal
        (fun other mem => inMain other (List.mem_cons_of_mem _ mem)) stillDirty distinct later
      refine ⟨written.trans rest, fun other => ?_⟩
      rw [bits, bitmap, BitMap.clear_apply, List.mem_cons, not_or]
      split
      · next same => simp [same]
      · next ne => simp [ne]

theorem openSitTarget_written (toJournal : Bool) (start : Nat)
    (accounted : SitAccounted sbi state.sit)
    (journal : JournalBounded sbi (state.curseg .coldData).sumBlk) :
    Written sbi state (openSitTarget sbi toJournal start state).1 ∧
      (openSitTarget sbi toJournal start state).1.sit.dirtySentriesBitmap =
        state.sit.dirtySentriesBitmap := by
  unfold openSitTarget
  split
  · exact ⟨written_of_eq accounted journal rfl rfl rfl rfl id rfl, rfl⟩
  · have switched : SitAccounted sbi (setToNextSit start state.sit) :=
      ⟨accounted.entry, accounted.sections, accounted.dirty, accounted.clean⟩
    have first := written_sit switched journal rfl
    exact ⟨first.trans (written_of_eq switched journal rfl rfl rfl rfl id rfl), rfl⟩

/-- Flushing a set makes its entries clean and no entry dirty. -/
theorem flushSitEntrySet_written {flushing flushed : Flushing} {ses : SitEntrySet}
    (accounted : SitAccounted sbi flushing.state.sit)
    (journal : JournalBounded sbi (flushing.state.curseg .coldData).sumBlk)
    (flush : flushSitEntrySet sbi flushing ses = some flushed) :
    Written sbi flushing.state flushed.state ∧ ∀ segno < sbi.mainSegments,
      flushed.state.sit.dirtySentriesBitmap segno = true →
        flushing.state.sit.dirtySentriesBitmap segno = true ∧
          startSegno segno ≠ ses.startSegno := by
  simp only [flushSitEntrySet, Option.map_eq_some_iff] at flush
  obtain ⟨stored, loop, rfl⟩ := flush
  obtain ⟨opened, bitmap⟩ := openSitTarget_written (flushing.toJournal && hasCursumSpace
    (flushing.state.curseg .coldData).sumBlk ses.entryCnt) ses.startSegno accounted journal
  generalize openSitTarget sbi _ ses.startSegno flushing.state = placed at *
  have members : ∀ segno, segno ∈ (placed.1.sit.dirtySentriesBitmap.setBits
      (min (ses.startSegno + sitEntryPerBlock) sbi.mainSegments)).filter
        (fun segno => decide (ses.startSegno ≤ segno)) ↔
      (segno < ses.startSegno + sitEntryPerBlock ∧ segno < sbi.mainSegments) ∧
        placed.1.sit.dirtySentriesBitmap segno = true ∧ ses.startSegno ≤ segno := by
    intro segno
    rw [List.mem_filter, BitMap.mem_setBits, lt_min_iff, decide_eq_true_eq, and_assoc]
  obtain ⟨stores, bits⟩ := flushSegnos_written opened.accounted opened.journal
    (fun segno mem => ((members segno).mp mem).1.2)
    (fun segno mem => ((members segno).mp mem).2.1)
    ((BitMap.nodup_setBits _ _).filter _) loop
  refine ⟨(opened.trans stores).trans
    (written_bugOn (by decide) stores.accounted stores.journal), ?_⟩
  intro segno inMain stillDirty
  rw [bugOn_sit, bits, members, bitmap] at stillDirty
  refine ⟨stillDirty.1, fun same => stillDirty.2 ?_⟩
  have divided := Nat.div_add_mod' segno sitEntryPerBlock
  have small := Nat.mod_lt segno (show 0 < sitEntryPerBlock by decide)
  have start_eq : segno / sitEntryPerBlock * sitEntryPerBlock = ses.startSegno := same
  exact ⟨⟨by omega, inMain⟩, stillDirty.1, by omega⟩

/-- The entries which are dirty still belong to a set that is left. -/
structure Draining (sbi : Sbi) (state : State) (sets : List SitEntrySet) (next : State) : Prop where
  written : Written sbi state next
  covered : Covered sbi next.sit sets

theorem flushSitEntrySets_draining {sets : List SitEntrySet} {flushing flushed : Flushing}
    (draining : Draining sbi state sets flushing.state)
    (flush : sets.foldlM (flushSitEntrySet sbi) flushing = some flushed) :
    Draining sbi state [] flushed.state := by
  induction sets generalizing flushing with
  | nil =>
      obtain rfl : flushing = flushed := by simpa using flush
      exact draining
  | cons ses sets ih =>
      rw [List.foldlM_cons, Option.bind_eq_bind, Option.bind_eq_some_iff] at flush
      obtain ⟨next, first, later⟩ := flush
      obtain ⟨written, dirtyBits⟩ :=
        flushSitEntrySet_written draining.written.accounted draining.written.journal first
      refine ih ⟨draining.written.trans written, fun segno inMain isDirty => ?_⟩ later
      obtain ⟨wasDirty, ne⟩ := dirtyBits segno inMain isDirty
      obtain own | other := hasSet_cons.mp (draining.covered segno inMain wasDirty)
      · exact absurd own.symm ne
      · exact other

/-- No entry of the main area is dirty. -/
def AllClean (sbi : Sbi) (sit : SitInfo) : Prop :=
  ∀ segno < sbi.mainSegments, sit.dirtySentriesBitmap segno = false

theorem flushSets_written {sets : List SitEntrySet} {middle : State} {cpc : CpControl}
    {flushed : State × CpControl} (written : Written sbi state middle)
    (covered : Covered sbi middle.sit sets)
    (flush : flushSets sbi middle cpc sets = some flushed) :
    Written sbi state flushed.1 ∧ AllClean sbi flushed.1.sit := by
  unfold flushSets at flush
  split at flush
  · next none_dirty =>
      obtain rfl := Option.some.inj flush
      have counted := written.accounted.dirty
      rw [none_dirty] at counted
      exact ⟨written, BitMap.popCount_eq_zero_iff.mp counted.symm⟩
  · obtain ⟨stored, loop, rfl⟩ := Option.map_eq_some_iff.mp flush
    obtain ⟨stores, drained⟩ := flushSitEntrySets_draining ⟨written, covered⟩ loop
    refine ⟨stores.trans (written_bugOn (by decide) stores.accounted stores.journal), ?_⟩
    intro segno inMain
    rw [bugOn_sit]
    by_contra isDirty
    obtain ⟨ses, mem, _⟩ := drained segno inMain (by simpa using isDirty)
    cases mem

theorem trimSegments_written {cpc : CpControl} {trimmed : State × CpControl}
    (accounted : SitAccounted sbi state.sit)
    (journal : JournalBounded sbi (state.curseg .coldData).sumBlk)
    (trim : trimSegments sbi state cpc = some trimmed) :
    Written sbi state trimmed.1 ∧ trimmed.1.sit = state.sit := by
  unfold trimSegments at trim
  split at trim
  · refine Execution.foldlM_invariant
      (fun queue : State × CpControl => Written sbi state queue.1 ∧ queue.1.sit = state.sit)
      (fun segno _ queue queued kept step => ?_)
      ⟨written_of_eq accounted journal rfl rfl rfl rfl id rfl, rfl⟩ trim
    refine ⟨kept.1.trans (addDiscardAddrs_written kept.1.accounted kept.1.journal step), ?_⟩
    rw [addDiscardAddrs_state step]
    exact kept.2
  · obtain rfl := Option.some.inj trim
    exact ⟨written_of_eq accounted journal rfl rfl rfl rfl id rfl, rfl⟩

/-- `flush_sit_entries` writes all dirty entries and then frees the prefree segments. -/
theorem flushSitEntries_written {cpc : CpControl} {flushed : State × CpControl}
    (consistent : Consistent sbi ∅ ready state)
    (flush : flushSitEntries sbi cpc state = some flushed) :
    ∃ written, Written sbi state written ∧ AllClean sbi written.sit ∧
      flushed.1 = setPrefreeAsFreeSegments sbi written := by
  simp only [flushSitEntries, Option.bind_eq_some_iff, Option.map_eq_some_iff] at flush
  obtain ⟨collected, collect, stored, store, trimmed, trim, rfl⟩ := flush
  have covered : Covered sbi state.sit (addSitsInSet sbi state.sit) := covered_addSitsInSet _
  have start : Collected sbi state collected := by
    split at collect
    · obtain rfl := Option.some.inj collect
      exact ⟨.refl consistent, covered⟩
    · exact removeSitsInJournal_collected consistent covered collect
  obtain ⟨stores, clean⟩ := flushSets_written start.written start.covered store
  obtain ⟨trims, sit_eq⟩ := trimSegments_written stores.accounted stores.journal trim
  refine ⟨trimmed.1, stores.trans trims, ?_, rfl⟩
  rw [sit_eq]
  exact clean

/-! ## Prefree segments -/

theorem freeSegmap_setPrefree (segnos : List Nat) (free : FreeSegmap) (bit : Nat) :
    (segnos.foldl (fun free segno => setTestAndFree sbi segno free) free).freeSegmap bit =
      if bit ∈ segnos then false else free.freeSegmap bit := by
  induction segnos generalizing free with
  | nil => simp
  | cons segno segnos ih =>
      rw [List.foldl_cons, ih, freeSegmap_setTestAndFree, BitMap.clear_apply]
      by_cases same : bit = segno
      · simp [same]
      · simp [same]

theorem secmapFree_setPrefree {segnos : List Nat} {free : FreeSegmap}
    (secmap : SecmapFree sbi free) :
    SecmapFree sbi (segnos.foldl (fun free segno => setTestAndFree sbi segno free) free) := by
  induction segnos generalizing free with
  | nil => exact secmap
  | cons segno segnos ih => exact ih (secmapFree_setTestAndFree segno secmap)

@[simp] theorem dirty_setPrefreeAsFreeSegments (state : State) :
    (setPrefreeAsFreeSegments sbi state).dirty = state.dirty := rfl

theorem freeSegmap_setPrefreeAsFreeSegments {segno : Nat} (state : State)
    (inMain : segno < sbi.mainSegments) :
    (setPrefreeAsFreeSegments sbi state).free.freeSegmap segno =
      (state.free.freeSegmap segno && !state.dirty.dirtySegmap .pre segno) := by
  simp only [setPrefreeAsFreeSegments, freeSegmap_setPrefree, BitMap.mem_setBits, inMain, true_and]
  cases state.dirty.dirtySegmap .pre segno <;> simp

/-- A prefree segment is in use, not current, without valid blocks, and in no other list. -/
structure Prefree (sbi : Sbi) (state : State) (segno : Nat) : Prop where
  used : state.free.freeSegmap segno = true
  notCurrent : isCurseg state segno = false
  empty : (state.sit.sentries segno).validBlocks = 0
  only : ∀ type ≠ .pre, listsOf state.dirty segno type = false

theorem prefree_of_listed {segno : Nat} (consistent : Consistent sbi ∅ ready state)
    (inMain : segno < sbi.mainSegments) (pre : state.dirty.dirtySegmap .pre segno = true) :
    Prefree sbi state segno := by
  have used : state.free.freeSegmap segno = true := by
    by_contra unused
    have unlisted := consistent.freeUnlisted segno inMain (by simpa using unused) .pre
    exact absurd (unlisted.symm.trans pre) (by simp)
  have notCurrent : isCurseg state segno = false := by
    rw [isCurseg_eq_false_iff]
    rintro type rfl
    exact absurd ((consistent.unlisted type .pre).symm.trans pre) (by simp)
  have listed := consistent.listed segno inMain used notCurrent (Set.notMem_empty _)
  have empty : (state.sit.sentries segno).validBlocks = 0 := by
    have isPre := listed.pre
    simp only [listsOf, pre] at isPre
    simpa using isPre
  have notDirty : listsOf state.dirty segno .dirty = false := by simp [listed.dirty, empty]
  refine ⟨used, notCurrent, empty, fun type ne => ?_⟩
  cases type with
  | log log => simp [listed.log log, notDirty]
  | dirty => exact notDirty
  | pre => exact absurd rfl ne

/-- The state after a checkpoint: the prefree segments are free and off their list. -/
structure Cleared (sbi : Sbi) (state next : State) : Prop where
  sit : next.sit = state.sit
  curseg : next.curseg = state.curseg
  warnings : next.warnings = state.warnings
  porDoing : next.porDoing = state.porDoing
  secmap : SecmapFree sbi state.free → SecmapFree sbi next.free
  segmap : ∀ segno < sbi.mainSegments, next.free.freeSegmap segno =
    (state.free.freeSegmap segno && !state.dirty.dirtySegmap .pre segno)
  pre : ∀ segno < sbi.mainSegments, next.dirty.dirtySegmap .pre segno = false
  others : ∀ type ≠ .pre, next.dirty.dirtySegmap type = state.dirty.dirtySegmap type
  counted : Counted sbi state.dirty → Counted sbi next.dirty

theorem clearPrefreeSegments_cleared
    (clear : clearPrefreeSegments sbi (setPrefreeAsFreeSegments sbi state) = some next) :
    Cleared sbi state next := by
  obtain ⟨cleared, clearMap, rfl⟩ := Option.map_eq_some_iff.mp clear
  obtain rfl := Option.some.inj (Option.ite_none_left_eq_some.mp clearMap).2
  refine
    { sit := rfl, curseg := rfl, warnings := rfl, porDoing := rfl
      secmap := secmapFree_setPrefree
      segmap := fun segno inMain => freeSegmap_setPrefreeAsFreeSegments state inMain
      pre := ?_, others := ?_, counted := ?_ }
  · intro segno inMain
    simp [BitMap.foldl_clear_setBits, inMain]
  · intro type ne
    simp [ne]
  · intro counted type
    by_cases same : type = .pre
    · subst same
      have lengths := BitMap.sum_runs (state.dirty.dirtySegmap .pre) sbi.mainSegments 0
        (Nat.zero_le _)
      have none_left : (((state.dirty.dirtySegmap .pre).setBits sbi.mainSegments).foldl
          BitMap.clear (state.dirty.dirtySegmap .pre)).popCount sbi.mainSegments = 0 :=
        BitMap.popCount_eq_zero_iff.mpr fun bit small => by
          simp [BitMap.foldl_clear_setBits, small]
      have start : (state.dirty.dirtySegmap .pre).popCount 0 = 0 := rfl
      simp only [dirty_setPrefreeAsFreeSegments, Function.update_self, none_left, counted .pre]
      omega
    · simp [same, counted type]

/-- A checkpoint keeps the invariant. -/
theorem Cleared.consistent (cleared : Cleared sbi state next) (clean : AllClean sbi state.sit)
    (consistent : Consistent sbi ∅ ready state) : Consistent sbi ∅ ready next := by
  have isCurseg_eq : ∀ segno, isCurseg next segno = isCurseg state segno := by
    intro segno
    simp only [isCurseg, cleared.curseg]
  have lists : ∀ segno < sbi.mainSegments, state.dirty.dirtySegmap .pre segno = false →
      listsOf next.dirty segno = listsOf state.dirty segno := by
    intro segno inMain notPre
    funext type
    by_cases same : type = .pre
    · subst same
      exact (cleared.pre segno inMain).trans notPre.symm
    · exact congrFun (cleared.others type same) segno
  have unlisted : ∀ segno < sbi.mainSegments, Prefree sbi state segno →
      Unlisted (listsOf next.dirty segno) := by
    intro segno inMain prefree type
    by_cases same : type = .pre
    · subst same
      exact cleared.pre segno inMain
    · exact (congrFun (cleared.others type same) segno).trans (prefree.only type same)
  have notPre_of_unlisted : ∀ segno, Unlisted (listsOf state.dirty segno) →
      state.dirty.dirtySegmap .pre segno = false := fun _ unlisted => unlisted .pre
  refine
    { sit := by rw [cleared.sit]; exact consistent.sit
      counted := cleared.counted consistent.counted
      secmap := cleared.secmap consistent.secmap
      typed := by rw [cleared.sit]; exact consistent.typed
      inMain := by rw [cleared.curseg]; exact consistent.inMain
      distinct := by rw [cleared.curseg]; exact consistent.distinct
      used := ?_
      ownType := by rw [cleared.sit, cleared.curseg]; exact consistent.ownType
      unlisted := ?_, freeUnlisted := ?_, freeEmpty := ?_
      stale := fun segno _ _ _ mem => absurd mem (Set.notMem_empty _)
      listed := ?_, cursors := ?_
      quiet := by rw [cleared.warnings]; exact consistent.quiet
      journal := by rw [cleared.curseg]; exact consistent.journal }
  · intro type
    rw [cleared.curseg, cleared.segmap _ (consistent.inMain type), consistent.used type,
      notPre_of_unlisted _ (consistent.unlisted type)]
    rfl
  · intro type
    rw [cleared.curseg, lists _ (consistent.inMain type)
      (notPre_of_unlisted _ (consistent.unlisted type))]
    exact consistent.unlisted type
  · intro segno inMain free
    cases pre : state.dirty.dirtySegmap .pre segno with
    | true => exact unlisted segno inMain (prefree_of_listed consistent inMain pre)
    | false =>
        rw [cleared.segmap segno inMain, pre] at free
        rw [lists segno inMain pre]
        exact consistent.freeUnlisted segno inMain (by simpa using free)
  · intro segno inMain free offset inSegment
    rw [cleared.sit]
    cases pre : state.dirty.dirtySegmap .pre segno with
    | true =>
        have prefree := prefree_of_listed consistent inMain pre
        have current := (consistent.sit.entry segno inMain).invalid_of_zero prefree.empty
          offset inSegment
        have saved := consistent.sit.clean segno inMain (clean segno inMain) offset inSegment
        simp [SegEntry.targetMap, ← saved, current]
    | false =>
        rw [cleared.segmap segno inMain, pre] at free
        exact consistent.freeEmpty segno inMain (by simpa using free) offset inSegment
  · intro segno inMain used away _
    rw [cleared.segmap segno inMain, Bool.and_eq_true, Bool.not_eq_true'] at used
    rw [isCurseg_eq] at away
    rw [cleared.sit, lists segno inMain used.2]
    exact consistent.listed segno inMain used.1 away (Set.notMem_empty _)
  · intro type mem
    obtain ⟨inside, here, behind⟩ := consistent.cursors type mem
    refine ⟨by rw [cleared.curseg]; exact inside, ?_, ?_⟩
    · rw [cleared.sit, cleared.curseg]
      exact here
    · rw [cleared.sit, cleared.curseg]
      exact behind

end F2fs
end StorageStack
