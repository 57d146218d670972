import StorageStack.F2fs.AllocationSafety
import StorageStack.F2fs.SitRoundTrip

/-!
# The table on the device in every run

From the mount of a well-formed image on, every entry which is not dirty is stored as it stands in
memory: an operation that changes an entry marks it dirty, and only `flush_sit_entries` writes to the
journal and to the SIT blocks.  Every flush of such a run can be read back.
-/

namespace StorageStack
namespace F2fs

open Execution ShadowTable

variable {sbi : Sbi} {image : Image} {state next : State}

/-! ## Operations between two flushes -/

/-- The stored table and the queue of discards are untouched, and an entry which is clean is as it
was. -/
structure SitKept (state next : State) : Prop where
  sitBitmap : next.sit.sitBitmap = state.sit.sitBitmap
  sitPages : next.sitPages = state.sitPages
  nSits : (next.curseg .coldData).sumBlk.nSits = (state.curseg .coldData).sumBlk.nSits
  sitJournal :
    (next.curseg .coldData).sumBlk.sitJournal = (state.curseg .coldData).sumBlk.sitJournal
  entries : ∀ segno, next.sit.dirtySentriesBitmap segno = false →
    state.sit.dirtySentriesBitmap segno = false ∧
      next.sit.sentries segno = state.sit.sentries segno
  discardList : next.discardList = state.discardList
  nrDiscards : next.nrDiscards = state.nrDiscards

namespace SitKept

theorem refl (state : State) : SitKept state state :=
  ⟨rfl, rfl, rfl, rfl, fun _ clean => ⟨clean, rfl⟩, rfl, rfl⟩

theorem trans {middle : State} (first : SitKept state middle) (second : SitKept middle next) :
    SitKept state next where
  sitBitmap := second.sitBitmap.trans first.sitBitmap
  sitPages := second.sitPages.trans first.sitPages
  nSits := second.nSits.trans first.nSits
  sitJournal := second.sitJournal.trans first.sitJournal
  entries segno clean := by
    obtain ⟨clean', same⟩ := second.entries segno clean
    obtain ⟨clean'', same'⟩ := first.entries segno clean'
    exact ⟨clean'', same.trans same'⟩
  discardList := second.discardList.trans first.discardList
  nrDiscards := second.nrDiscards.trans first.nrDiscards

theorem after {middle : State} (second : SitKept middle next) (first : SitKept state middle) :
    SitKept state next := first.trans second

/-- A step outside the table and the logs. -/
theorem of_eq (sit : next.sit = state.sit) (sitPages : next.sitPages = state.sitPages)
    (curseg : next.curseg = state.curseg) (discardList : next.discardList = state.discardList)
    (nrDiscards : next.nrDiscards = state.nrDiscards) : SitKept state next where
  sitBitmap := by rw [sit]
  sitPages := sitPages
  nSits := by rw [curseg]
  sitJournal := by rw [curseg]
  entries _ clean := by
    rw [sit] at clean ⊢
    exact ⟨clean, rfl⟩
  discardList := discardList
  nrDiscards := nrDiscards

/-- A log may change, apart from its journal. -/
theorem setCurseg (state : State) {type : CursegType} {curseg : Curseg}
    (nSits : curseg.sumBlk.nSits = (state.curseg type).sumBlk.nSits)
    (sitJournal : curseg.sumBlk.sitJournal = (state.curseg type).sumBlk.sitJournal) :
    SitKept state (state.setCurseg type curseg) := by
  have kept : ((state.setCurseg type curseg).curseg .coldData).sumBlk.nSits =
        (state.curseg .coldData).sumBlk.nSits ∧
      ((state.setCurseg type curseg).curseg .coldData).sumBlk.sitJournal =
        (state.curseg .coldData).sumBlk.sitJournal := by
    by_cases same : CursegType.coldData = type
    · subst same
      rw [setCurseg_self]
      exact ⟨nSits, sitJournal⟩
    · rw [setCurseg_of_ne same]
      exact ⟨rfl, rfl⟩
  exact ⟨rfl, rfl, kept.1, kept.2, fun _ clean => ⟨clean, rfl⟩, rfl, rfl⟩

/-- An entry may change when it becomes dirty. -/
theorem of_marked {sit : SitInfo} (segno : Nat) (state : State)
    (sitBitmap : sit.sitBitmap = state.sit.sitBitmap)
    (bitmap : sit.dirtySentriesBitmap = state.sit.dirtySentriesBitmap.set segno)
    (sentries : ∀ other ≠ segno, sit.sentries other = state.sit.sentries other) :
    SitKept state { state with sit := sit } where
  sitBitmap := sitBitmap
  sitPages := rfl
  nSits := rfl
  sitJournal := rfl
  entries other clean := by
    simp only [bitmap] at clean
    have ne : other ≠ segno := by
      rintro rfl
      simp at clean
    rw [BitMap.set_of_ne ne] at clean
    exact ⟨clean, sentries other ne⟩
  discardList := rfl
  nrDiscards := rfl

theorem packable_of_consistent {pending : Set Nat} {ready : Set CursegType}
    (consistent : Consistent sbi pending ready state) {segno : Nat}
    (inMain : segno < sbi.mainSegments) : (state.sit.sentries segno).Packable := by
  have count := (consistent.sit.entry segno inMain).le
  have small := sbi.blocksPerSeg_le
  obtain ⟨log, type⟩ := consistent.typed segno inMain
  constructor
  · simp only [sitVblocksShift]
    omega
  · rw [type]
    cases log <;> decide

/-- What is not dirty stays stored. -/
theorem recorded {pending : Set Nat} {ready : Set CursegType} (kept : SitKept state next)
    (consistent : Consistent sbi pending ready next) (recorded : SitRecorded sbi state) :
    SitRecorded sbi next where
  counted := consistent.sit.dirty
  packable _ := packable_of_consistent consistent
  journal := consistent.journal
  distinct := by
    have keys : (next.curseg .coldData).sumBlk.sitKeys =
        (state.curseg .coldData).sumBlk.sitKeys := by
      funext index
      rw [SummaryBlock.sitKeys, SummaryBlock.sitKeys, kept.sitJournal]
    rw [keys, kept.nSits]
    exact recorded.distinct
  stored segno inMain clean := by
    obtain ⟨clean', same⟩ := kept.entries segno clean
    have stored := recorded.stored segno inMain clean'
    rw [same]
    simp only [State.storedSit, rawSitEntry, kept.nSits, kept.sitJournal, kept.sitBitmap,
      kept.sitPages] at stored ⊢
    exact stored

end SitKept

theorem sitKept_bugOn (site : BugSite) (condition : Bool) (state : State) :
    SitKept state (bugOn site condition state) := by
  unfold bugOn
  split
  · exact .of_eq rfl rfl rfl rfl rfl
  · exact .refl _

theorem sitKept_resetCurseg {type : CursegType} (reset : resetCurseg sbi type true state = some next) :
    SitKept state next := by
  simp only [resetCurseg] at reset
  split at reset
  · cases reset
  · rw [← Option.some.inj reset]
    refine (SitKept.setCurseg state ?_ ?_).trans
      (.of_marked (state.curseg type).nextSegno _ ?_ ?_ ?_)
    · rfl
    · rfl
    · simp only [setSitEntryType, if_true, sitBitmap_markSitEntryDirty]
      rfl
    · simp only [setSitEntryType, if_true, dirtySentriesBitmap_markSitEntryDirty]
      rfl
    · intro other ne
      simp only [setSitEntryType, if_true, sentries_markSitEntryDirty]
      exact Function.update_of_ne ne _ _

theorem sitKept_newCurseg {type : CursegType} {newSec : Bool}
    (changed : newCurseg sbi type newSec state = some next) : SitKept state next := by
  simp only [newCurseg, getNewSegment, Option.bind_eq_some_iff, Option.map_eq_some_iff] at changed
  obtain ⟨_, ⟨segno, _, rfl⟩, reset, resetted, rfl⟩ := changed
  have summed : SitKept state (writeSumPage type state) := .of_eq rfl rfl rfl rfl rfl
  have warned := summed.trans (sitKept_bugOn .getNewSegment
    ((writeSumPage type state).free.freeSegmap segno) (writeSumPage type state))
  generalize bugOn .getNewSegment ((writeSumPage type state).free.freeSegmap segno)
    (writeSumPage type state) = taken at warned resetted
  have inuse : SitKept state { taken with free := setInuse sbi segno taken.free } :=
    warned.trans (.of_eq rfl rfl rfl rfl rfl)
  refine ((inuse.trans (.setCurseg _ ?_ ?_)).trans (sitKept_resetCurseg resetted)).trans
    (.setCurseg _ ?_ ?_)
  all_goals rfl

theorem sitKept_removeDirtyType {segno : Nat} {type : DirtyType}
    (removed : removeDirtyType sbi segno type state = some next) : SitKept state next := by
  simp only [removeDirtyType] at removed
  split at removed
  · obtain ⟨own, _, rfl⟩ := Option.map_eq_some_iff.mp removed
    split
    · exact .of_eq rfl rfl rfl rfl rfl
    · exact .of_eq rfl rfl rfl rfl rfl
  · rw [← Option.some.inj removed]
    exact .of_eq rfl rfl rfl rfl rfl

theorem sitKept_locateDirtyType (segno : Nat) (type : DirtyType) (state : State) :
    SitKept state (locateDirtyType segno type state) := by
  simp only [locateDirtyType]
  split
  · exact .refl _
  · split
    · split
      · exact (sitKept_bugOn _ _ _).after (.of_eq rfl rfl rfl rfl rfl)
      · exact .of_eq rfl rfl rfl rfl rfl
    · exact .of_eq rfl rfl rfl rfl rfl

theorem sitKept_locateDirtySegment {segno : Nat}
    (located : locateDirtySegment sbi segno state = some next) : SitKept state next := by
  simp only [locateDirtySegment] at located
  split_ifs at located
  · rw [← Option.some.inj located]
    exact .refl _
  · exact (sitKept_locateDirtyType _ _ _).trans (sitKept_removeDirtyType located)
  · rw [← Option.some.inj located]
    exact sitKept_locateDirtyType _ _ _
  · exact sitKept_removeDirtyType located

theorem sitKept_changeCurseg {type : CursegType} {reuse : Bool}
    (changed : changeCurseg sbi type reuse state = some next) : SitKept state next := by
  simp only [changeCurseg] at changed
  split at changed
  · cases changed
  · simp only [Option.bind_eq_some_iff, Option.map_eq_some_iff] at changed
    obtain ⟨first, removed, second, removed', reset, resetted, rfl⟩ := changed
    have started : SitKept state first :=
      (sitKept_removeDirtyType removed).after (.of_eq rfl rfl rfl rfl rfl)
    have moved := (started.trans (sitKept_removeDirtyType removed')).trans
      (sitKept_resetCurseg resetted)
    have placed : SitKept state (nextFreeBlkoff sbi type 0
        (reset.setCurseg type { reset.curseg type with allocType := .ssr })) := by
      refine (moved.trans (.setCurseg _ ?_ ?_)).trans (.setCurseg _ ?_ ?_)
      all_goals rfl
    split
    · refine placed.trans (.setCurseg _ ?_ ?_)
      · rfl
      · rfl
    · exact placed

theorem sitKept_allocateSegmentByDefault {env : Env} {type : CursegType} {force : Bool}
    (allocated : allocateSegmentByDefault sbi env type force state = some next) :
    SitKept state next := by
  unfold allocateSegmentByDefault at allocated
  split_ifs at allocated
  · exact sitKept_newCurseg allocated
  · exact sitKept_newCurseg allocated
  · exact sitKept_newCurseg allocated
  · rcases firstVictim_spec sbi state type (ssrLogs sbi env state type) with
      ⟨lastVictim, failed⟩ | ⟨lastVictim, segno, _, success⟩
    · rw [getSsrSegment, failed] at allocated
      have searched : SitKept state { state with lastVictim := lastVictim } := .of_eq rfl rfl rfl rfl rfl
      exact searched.trans (sitKept_newCurseg allocated)
    · rw [getSsrSegment, success] at allocated
      have searched : SitKept state { state with lastVictim := lastVictim } := .of_eq rfl rfl rfl rfl rfl
      have aimed : SitKept state (({ state with lastVictim := lastVictim }).setCurseg type
          { state.curseg type with nextSegno := segno }) := by
        refine searched.trans (.setCurseg _ ?_ ?_)
        · rfl
        · rfl
      exact aimed.trans (sitKept_changeCurseg allocated)
  · exact sitKept_newCurseg allocated

theorem sitKept_allocateNewSegment {env : Env} {type : CursegType}
    (allocated : allocateNewSegment sbi env type state = some next) : SitKept state next := by
  obtain ⟨middle, change, located⟩ := Option.bind_eq_some_iff.mp allocated
  exact (sitKept_allocateSegmentByDefault change).trans (sitKept_locateDirtySegment located)

theorem sitKept_allocateNewSegments {env : Env}
    (allocated : allocateNewSegments sbi env state = some next) : SitKept state next := by
  simp only [allocateNewSegments, Option.bind_eq_some_iff] at allocated
  obtain ⟨first, hot, second, warm, cold⟩ := allocated
  exact ((sitKept_allocateNewSegment hot).trans (sitKept_allocateNewSegment warm)).trans
    (sitKept_allocateNewSegment cold)

theorem sitKept_updateSitEntry {mtime blkaddr : Nat} {del : Int}
    (updated : updateSitEntry sbi mtime blkaddr del state = some next) : SitKept state next := by
  simp only [updateSitEntry] at updated
  split at updated
  · cases updated
  · rw [← Option.some.inj updated]
    refine ((SitKept.of_marked (sbi.getSegno blkaddr) state ?_ ?_ ?_).trans
      (sitKept_bugOn _ _ _)).trans (sitKept_bugOn _ _ _)
    · simp only [sitBitmap_markSitEntryDirty]
    · simp only [dirtySentriesBitmap_markSitEntryDirty]
    · intro other ne
      simp only [sentries_markSitEntryDirty]
      exact Function.update_of_ne ne _ _

theorem sitKept_refreshSitEntry {mtime old new : Nat}
    (refreshed : refreshSitEntry sbi mtime old new state = some next) : SitKept state next := by
  simp only [refreshSitEntry, Option.bind_eq_some_iff] at refreshed
  obtain ⟨first, valid, second, invalid, third, located, located'⟩ := refreshed
  have released : SitKept first second := by
    split at invalid
    · exact sitKept_updateSitEntry invalid
    · rw [← Option.some.inj invalid]
      exact .refl _
  exact (((sitKept_updateSitEntry valid).trans released).trans
    (sitKept_locateDirtySegment located)).trans (sitKept_locateDirtySegment located')

theorem sitKept_addSumEntry (type : CursegType) (sum : Summary) (state : State) :
    SitKept state (addSumEntry type sum state) := by
  refine .setCurseg _ ?_ ?_
  · rfl
  · rfl

theorem sitKept_refreshNextBlkoff (type : CursegType) (state : State) :
    SitKept state (refreshNextBlkoff sbi type state) := by
  simp only [refreshNextBlkoff]
  split
  · refine .setCurseg _ ?_ ?_
    · rfl
    · rfl
  · refine .setCurseg _ ?_ ?_
    · rfl
    · rfl

theorem sitKept_allocateDataBlock {env : Env} {page : Bool} {oldBlkaddr : Nat} {sum : Summary}
    {type : CursegType} {result : State × Allocation}
    (allocated : allocateDataBlock sbi env page oldBlkaddr sum type state = some result) :
    SitKept state result.1 := by
  simp only [allocateDataBlock, Option.bind_eq_some_iff, Option.map_eq_some_iff] at allocated
  obtain ⟨placed, place, refreshed, refresh, rfl⟩ := allocated
  have advanced := (sitKept_addSumEntry type sum state).trans
    (@sitKept_refreshNextBlkoff sbi type (addSumEntry type sum state))
  refine (sitKept_refreshSitEntry refresh).after ?_
  split at place
  · rw [← Option.some.inj place]
    exact advanced
  · exact advanced.trans (sitKept_allocateSegmentByDefault place)

theorem sitKept_allocateDummyDataBlock {env : Env} {page : Bool} {type : CursegType}
    {result : State × Allocation}
    (allocated : allocateDummyDataBlock sbi env page type state = some result) :
    SitKept state result.1 := by
  simp only [allocateDummyDataBlock, Option.bind_eq_some_iff, Option.map_eq_some_iff] at allocated
  obtain ⟨placed, place, updated, update, located, locate, rfl⟩ := allocated
  have moved : SitKept state placed := by
    split at place
    · rw [← Option.some.inj place]
      exact .refl _
    · exact sitKept_allocateSegmentByDefault place
  exact (moved.trans (sitKept_updateSitEntry update)).trans (sitKept_locateDirtySegment locate)

theorem sitKept_invalidateBlocks {mtime addr : Nat}
    (invalidated : invalidateBlocks sbi mtime addr state = some next) : SitKept state next := by
  simp only [invalidateBlocks] at invalidated
  split at invalidated
  · rw [← Option.some.inj invalidated]
    exact sitKept_bugOn _ _ _
  · obtain ⟨updated, update, located⟩ := Option.bind_eq_some_iff.mp invalidated
    exact ((sitKept_bugOn _ _ _).trans (sitKept_updateSitEntry update)).trans
      (sitKept_locateDirtySegment located)

theorem sitKept_recoverDataPage {mtime oldBlkaddr newBlkaddr : Nat} {sum : Summary}
    (recovered : recoverDataPage sbi mtime sum oldBlkaddr newBlkaddr state = some next) :
    SitKept state next := by
  simp only [recoverDataPage, Option.bind_eq_some_iff] at recovered
  obtain ⟨type, _, moved, move, refreshed, refresh, located⟩ := recovered
  have started : SitKept state moved := by
    split at move
    · refine (SitKept.setCurseg _ ?_ ?_).trans (sitKept_changeCurseg move)
      · rfl
      · rfl
    · rw [← Option.some.inj move]
      exact .refl _
  have placed : SitKept state (addSumEntry type sum (moved.setCurseg type
      { moved.curseg type with nextBlkoff := sbi.getBlkoffFromSeg0 newBlkaddr })) := by
    refine (started.trans (.setCurseg _ ?_ ?_)).trans (sitKept_addSumEntry _ _ _)
    · rfl
    · rfl
  exact (placed.trans (sitKept_refreshSitEntry refresh)).trans (sitKept_locateDirtySegment located)

theorem sitRecorded_clearPrefreeSegments (recorded : SitRecorded sbi state)
    (cleared : clearPrefreeSegments sbi state = some next) : SitRecorded sbi next := by
  obtain ⟨middle, clearMap, rfl⟩ := Option.map_eq_some_iff.mp cleared
  obtain rfl := Option.some.inj (Option.ite_none_left_eq_some.mp clearMap).2
  exact recorded.congr rfl rfl rfl

/-! ## Runs -/

/-- An operation is one of the two steps of a checkpoint or keeps the stored table. -/
inductive StepKept (sbi : Sbi) (manager next : Manager) : Operation → Prop
  | flush {cpc : CpControl} {flushed : State × CpControl}
      (flush : flushSitEntries sbi cpc manager.state = some flushed)
      (result : next = ⟨flushed.1, true⟩) : StepKept sbi manager next (.flushSitEntries cpc)
  | clear {cleared : State} (clear : clearPrefreeSegments sbi manager.state = some cleared)
      (result : next = ⟨cleared, false⟩) : StepKept sbi manager next .clearPrefreeSegments
  | other {operation : Operation} (between : manager.checkpointing = false)
      (still : next.checkpointing = false) (kept : SitKept manager.state next.state) :
      StepKept sbi manager next operation

theorem step_kept {manager next : Manager} {operation : Operation}
    (admitted : Admitted sbi manager operation) (stepped : step sbi manager operation = some next) :
    StepKept sbi manager next operation := by
  cases operation with
  | allocateDataBlock env page oldBlkaddr sum type =>
      obtain ⟨result, allocated, rfl⟩ := Option.map_eq_some_iff.mp stepped
      exact .other admitted.1 admitted.1 (sitKept_allocateDataBlock allocated)
  | allocateDummyDataBlock env page type =>
      obtain ⟨result, allocated, rfl⟩ := Option.map_eq_some_iff.mp stepped
      exact .other admitted.1 admitted.1 (sitKept_allocateDummyDataBlock allocated)
  | invalidateBlocks mtime addr =>
      obtain ⟨invalidated, invalidation, rfl⟩ := Option.map_eq_some_iff.mp stepped
      exact .other admitted.1 admitted.1 (sitKept_invalidateBlocks invalidation)
  | allocateNewSegments env =>
      obtain ⟨renewed, renewal, rfl⟩ := Option.map_eq_some_iff.mp stepped
      exact .other admitted admitted (sitKept_allocateNewSegments renewal)
  | flushSitEntries cpc =>
      obtain ⟨flushed, flush, rfl⟩ := Option.map_eq_some_iff.mp stepped
      exact .flush flush rfl
  | clearPrefreeSegments =>
      obtain ⟨cleared, clear, rfl⟩ := Option.map_eq_some_iff.mp stepped
      exact .clear clear rfl
  | startRecovery =>
      obtain rfl := Option.some.inj stepped
      exact .other admitted admitted (.of_eq rfl rfl rfl rfl rfl)
  | recoverDataPage mtime sum oldBlkaddr newBlkaddr =>
      obtain ⟨recovered, recovery, rfl⟩ := Option.map_eq_some_iff.mp stepped
      exact .other admitted.1 admitted.1 (sitKept_recoverDataPage recovery)
  | endRecovery env =>
      obtain ⟨renewed, renewal, rfl⟩ := Option.map_eq_some_iff.mp stepped
      exact .other admitted admitted
        ((sitKept_allocateNewSegments renewal).trans (.of_eq rfl rfl rfl rfl rfl))

/-- The table of a manager is stored, up to the entries which are dirty. -/
theorem step_sitRecorded {manager next : Manager} {operation : Operation} (fits : sbi.SitFits)
    (sound : Sound sbi manager) (recorded : SitRecorded sbi manager.state)
    (admitted : Admitted sbi manager operation) (noPadding : operation.NoPadding)
    (stepped : step sbi manager operation = some next) : SitRecorded sbi next.state := by
  have sound' := step_sound sound admitted noPadding stepped
  cases step_kept admitted stepped with
  | flush flush result => exact result ▸ (flushSitEntries_flushed fits recorded flush).recorded
  | clear clear result => exact result ▸ sitRecorded_clearPrefreeSegments recorded clear
  | other between still kept => exact kept.recorded (sound'.consistent still) recorded

/-- No segment has two slots in the journal of an image. -/
def JournalDistinct (image : Image) : Prop :=
  Distinct (image.summaries .coldData).sitKeys (image.summaries .coldData).nSits

theorem sitKept_initDirtySegmap (state : State) : SitKept state (initDirtySegmap sbi state) := by
  have general : ∀ (segnos : List Nat) (state : State),
      SitKept state (segnos.foldl (initDirtySegment sbi) state) := by
    intro segnos
    induction segnos with
    | nil => exact SitKept.refl
    | cons segno segnos ih =>
        intro state
        refine SitKept.after (ih _) ?_
        simp only [initDirtySegment]
        split_ifs
        · exact .refl _
        · exact sitKept_bugOn _ _ _
        · exact sitKept_locateDirtyType _ _ _
  exact general _ _

/-- A mount leaves the table on the device alone. -/
theorem storage_mounted {mtime : Nat} (image_consistent : ImageConsistent sbi image)
    (mounted : buildSegmentManager sbi mtime image = some state) :
    state.sit.sitBitmap = image.ckpt.sitBitmap ∧ state.sitPages = image.sitPages := by
  simp only [buildSegmentManager, Option.map_eq_some_iff] at mounted
  obtain ⟨restored, restore, rfl⟩ := mounted
  have logs := foldlM_restoreCurseg (by decide) restore
  have entries := buildSitEntries_restored image_consistent logs
  have kept := @sitKept_initDirtySegmap sbi (initFreeSegmap sbi (buildSitEntries sbi restored))
  constructor
  · refine kept.sitBitmap.trans ?_
    simp only [initFreeSegmap]
    rw [entries.rest, logs.rest]
    rfl
  · refine kept.sitPages.trans ?_
    simp only [initFreeSegmap]
    rw [entries.rest, logs.rest]
    rfl

/-- After a mount every entry is stored as it stands in memory. -/
theorem sitRecorded_mounted {mtime : Nat} (image_consistent : ImageConsistent sbi image)
    (distinct : JournalDistinct image)
    (mounted : buildSegmentManager sbi mtime image = some state) : SitRecorded sbi state := by
  have built := buildSegmentManager_mounted image_consistent mounted
  obtain ⟨consistent, _⟩ := buildSegmentManager_consistent image_consistent mounted
  obtain ⟨sitBitmap, sitPages⟩ := storage_mounted image_consistent mounted
  refine ⟨consistent.sit.dirty, fun _ => SitKept.packable_of_consistent consistent,
    consistent.journal, ?_, fun segno inMain _ => ?_⟩
  · have keys : (state.curseg .coldData).sumBlk.sitKeys =
        (image.summaries .coldData).sitKeys := by
      funext index
      rw [SummaryBlock.sitKeys, SummaryBlock.sitKeys, built.sitJournal]
    rw [keys, built.nSits]
    exact distinct
  · have reads : state.storedSit sbi segno = image.rawSit sbi segno := by
      simp only [State.storedSit, Image.rawSit, rawSitEntry, built.nSits, built.sitJournal,
        sitBitmap, sitPages]
    rw [reads, built.sentries segno inMain]
    exact ⟨rfl, rfl, rfl, rfl⟩

/-- In every run every entry which is not dirty is stored as it stands in memory. -/
theorem run_sitRecorded {mtime : Nat} {operations : List Operation} {manager : Manager}
    (fits : sbi.SitFits) (image_consistent : ImageConsistent sbi image)
    (distinct : JournalDistinct image)
    (mounted : buildSegmentManager sbi mtime image = some state)
    (admitted : Meets (step sbi) (Admitted sbi) ⟨state, false⟩ operations)
    (noPadding : ∀ operation ∈ operations, operation.NoPadding)
    (execution : run (step sbi) ⟨state, false⟩ operations = some manager) :
    SitRecorded sbi manager.state := by
  refine (@run_invariant _ _ (step sbi) _
    (fun manager => Sound sbi manager ∧ SitRecorded sbi manager.state)
    (fun _ _ _ kept meets stepped => ?_) _ _ _
    ⟨sound_mounted image_consistent mounted,
      sitRecorded_mounted image_consistent distinct mounted⟩
    (meets_and admitted ((meets_iff_forall execution).mpr noPadding)) execution).2
  exact ⟨step_sound kept.1 meets.1 meets.2 stepped,
    step_sitRecorded fits kept.1 kept.2 meets.1 meets.2 stepped⟩

/-! ## Reading back -/

/-- What a flush promises to the mount that follows it. -/
structure ReadsBack (sbi : Sbi) (state flushed : State) : Prop where
  clean : AllClean sbi flushed.sit
  noneDirty : flushed.sit.dirtySentries = 0
  kept : ∀ segno, SameEntry (state.sit.sentries segno) (flushed.sit.sentries segno)
  /-- `build_sit_entries` gives every segment the entry it had in memory. -/
  loaded : ∀ loaded : State,
    (loaded.curseg .coldData).sumBlk = (flushed.curseg .coldData).sumBlk →
    loaded.sit.sitBitmap = flushed.sit.sitBitmap → loaded.sitPages = flushed.sitPages →
    ∀ segno < sbi.mainSegments,
      SameEntry (state.sit.sentries segno) ((buildSitEntries sbi loaded).sit.sentries segno)
  distinct : Distinct (flushed.curseg .coldData).sumBlk.sitKeys
    (flushed.curseg .coldData).sumBlk.nSits
  /-- No slot of the journal is older than the entry in memory. -/
  newest : ∀ index < (flushed.curseg .coldData).sumBlk.nSits,
    Records ((flushed.curseg .coldData).sumBlk.sitJournal index).se
      (state.sit.sentries ((flushed.curseg .coldData).sumBlk.sitKeys index))
  /-- The copy of a SIT block to which the last checkpoint refers is not written. -/
  previous : ∀ segno < sbi.mainSegments,
    flushed.sitPages (currentSitAddr sbi state.sit.sitBitmap segno) =
      state.sitPages (currentSitAddr sbi state.sit.sitBitmap segno)
  warnings : flushed.warnings = state.warnings

theorem SameEntry.symm {before after : SegEntry} (same : SameEntry before after) :
    SameEntry after before :=
  ⟨same.type.symm, same.validBlocks.symm, same.curValidMap.symm, same.mtime.symm⟩

theorem Records.sameEntry {raw : RawSit} {se : SegEntry} (records : Records raw se) :
    SameEntry se (segInfoFromRawSit raw) :=
  ⟨records.type, records.validBlocks, records.validMap, records.mtime⟩

theorem SitFlushed.readsBack {flushed : State} (done : SitFlushed sbi state flushed) :
    ReadsBack sbi state flushed where
  clean := done.clean
  noneDirty := done.noneDirty
  kept := done.same
  loaded loaded sumBlk sitBitmap sitPages segno inMain := by
    rw [sentries_buildSitEntries loaded inMain]
    have same : loaded.storedSit sbi segno = flushed.storedSit sbi segno := by
      rw [State.storedSit, State.storedSit, sumBlk, sitBitmap, sitPages]
    rw [same]
    exact (done.same segno).trans
      (done.recorded.stored segno inMain (done.clean segno inMain)).sameEntry
  distinct := done.recorded.distinct
  newest index small := by
    have inMain := done.recorded.journal.inMain index small
    have stored := done.recorded.stored _ inMain (done.clean _ inMain)
    rw [storedSit_eq, lookup] at stored
    have slot : indexOf (flushed.curseg .coldData).sumBlk.sitKeys
        (flushed.curseg .coldData).sumBlk.nSits
        ((flushed.curseg .coldData).sumBlk.sitJournal index).segno = some index :=
      (indexOf_eq_some done.recorded.distinct).mpr ⟨small, rfl⟩
    rw [slot] at stored
    exact (done.same _).symm.records stored
  previous := done.previous
  warnings := done.warnings

/-- A flush of a recorded table returns, and the mount that follows reads every entry as it stands in
memory. -/
theorem flushSitEntries_readsBack {cpc : CpControl} (fits : sbi.SitFits)
    (recorded : SitRecorded sbi state)
    (trims : cpc.reason = .discard → cpc.trimEnd < sbi.mainSegments) :
    ∃ flushed, flushSitEntries sbi cpc state = some flushed ∧ ReadsBack sbi state flushed.1 := by
  obtain ⟨flushed, flush⟩ := flushSitEntries_total fits recorded trims
  exact ⟨flushed, flush, (flushSitEntries_flushed fits recorded flush).readsBack⟩

/-- Every flush of a run can be read back. -/
theorem run_readsBack {mtime : Nat} {operations : List Operation} {manager : Manager}
    {cpc : CpControl} {flushed : State × CpControl} (fits : sbi.SitFits)
    (image_consistent : ImageConsistent sbi image) (distinct : JournalDistinct image)
    (mounted : buildSegmentManager sbi mtime image = some state)
    (admitted : Meets (step sbi) (Admitted sbi) ⟨state, false⟩ operations)
    (noPadding : ∀ operation ∈ operations, operation.NoPadding)
    (execution : run (step sbi) ⟨state, false⟩ operations = some manager)
    (flush : flushSitEntries sbi cpc manager.state = some flushed) :
    ReadsBack sbi manager.state flushed.1 :=
  (flushSitEntries_flushed fits
    (run_sitRecorded fits image_consistent distinct mounted admitted noPadding execution)
    flush).readsBack

/-- The small volume with all its entries dirty, too many for the journal. -/
def allDirty : State :=
  { unbuilt smallImage with
    sit := { buildSitInfo smallImage with
      dirtySentriesBitmap := fun segno => decide (segno < smallVolume.mainSegments)
      dirtySentries := smallVolume.mainSegments } }

theorem flushSitEntries_readsBack_example :
    ∃ flushed, flushSitEntries smallVolume ⟨.discard, 0, 9, 0, 0⟩ allDirty = some flushed ∧
      ReadsBack smallVolume allDirty flushed.1 := by
  have fits : smallVolume.SitFits := show ∀ segno < 10, segno / 55 < 64 by decide
  refine flushSitEntries_readsBack fits ⟨?_, ?_, ?_, ?_, ?_⟩ (by decide)
  · decide
  · intro segno _
    exact show SegEntry.zero.Packable from ⟨by decide, by decide⟩
  · exact ⟨by decide, by decide⟩
  · intro left small
    exact absurd small (by simp [allDirty, unbuilt, smallImage, emptySummaryBlock])
  · intro segno inMain clean
    simp [allDirty, inMain] at clean

end F2fs
end StorageStack
