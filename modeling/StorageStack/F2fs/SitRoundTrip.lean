import StorageStack.F2fs.SitSets
import StorageStack.F2fs.SitStorage

/-!
# Flushing and loading the segment information table

`flush_sit_entries` takes the sets of dirty entries one after the other.  The journal keeps room for
all dirty entries, or else it has been emptied and holds none of them, so that a set which goes to
its SIT block leaves nothing in the journal that would hide it.
-/

namespace StorageStack
namespace F2fs

open ShadowTable

variable {sbi : Sbi} {start state next : State}

/-! ## Room in the journal -/

theorem hasCursumSpace_iff {sum : SummaryBlock} {size : Nat} (fits : sum.nSits ≤ sitJournalEntries) :
    hasCursumSpace sum size = true ↔ sum.nSits + size ≤ sitJournalEntries := by
  rw [hasCursumSpace, decide_eq_true_eq, maxSitJentries]
  simp only [sitJournalEntries] at fits ⊢
  omega

/-- The journal has room for all dirty entries, or it holds none of them. -/
inductive Room (sbi : Sbi) (state : State) : Bool → Prop
  | journal (space : (state.curseg .coldData).sumBlk.nSits + state.sit.dirtySentries ≤
      sitJournalEntries) : Room sbi state true
  | pages (toJournal : Bool) (absent : ∀ segno < sbi.mainSegments,
      state.sit.dirtySentriesBitmap segno = true → state.sitSlot segno = none) :
      Room sbi state toJournal

/-! ## Opening the target of a set -/

theorem getNextSitPage_eq {segno : Nat} (inside : segno / sitEntryPerBlock < sbi.sitBlocks) :
    getNextSitPage sbi segno state =
      ({ state with
          sitPages := Function.update state.sitPages
            (sbi.sitAddr (sitBlockOffset segno) (!state.sit.sitBitmap (sitBlockOffset segno)))
            (state.sitPages
              (sbi.sitAddr (sitBlockOffset segno) (state.sit.sitBitmap (sitBlockOffset segno))))
          sit := { state.sit with
            sitBitmap := Function.update state.sit.sitBitmap (sitBlockOffset segno)
              (!state.sit.sitBitmap (sitBlockOffset segno)) } },
        sbi.sitAddr (sitBlockOffset segno) (!state.sit.sitBitmap (sitBlockOffset segno))) := by
  have switched : setToNextSit segno state.sit =
      { state.sit with
        sitBitmap := Function.update state.sit.sitBitmap (sitBlockOffset segno)
          (!state.sit.sitBitmap (sitBlockOffset segno)) } := by
    unfold setToNextSit
    cases current : state.sit.sitBitmap (sitBlockOffset segno) with
    | false => simp [current, BitMap.set]
    | true => simp [current, BitMap.clear]
  simp only [getNextSitPage, nextSitAddr_eq inside, switched]
  rfl

/-- What opening the target of a set leaves and what it moves. -/
structure Opened (sbi : Sbi) (toJournal : Bool) (segno : Nat) (state : State)
    (opened : State × SitTarget) : Prop where
  recorded : SitRecorded sbi opened.1
  sentries : opened.1.sit.sentries = state.sit.sentries
  bitmap : opened.1.sit.dirtySentriesBitmap = state.sit.dirtySentriesBitmap
  dirty : opened.1.sit.dirtySentries = state.sit.dirtySentries
  curseg : opened.1.curseg = state.curseg
  warnings : opened.1.warnings = state.warnings
  others : ∀ offset ≠ sitBlockOffset segno,
    opened.1.sit.sitBitmap offset = state.sit.sitBitmap offset
  pages : ∀ address,
    address ≠ sbi.sitAddr (sitBlockOffset segno) (!state.sit.sitBitmap (sitBlockOffset segno)) →
      opened.1.sitPages address = state.sitPages address ∧ opened.2 ≠ .page address
  journal : opened.2 = .journal ↔ toJournal = true
  target : ∀ address, opened.2 = .page address → ∀ other, sitBlockOffset other =
    sitBlockOffset segno → address = currentSitAddr sbi opened.1.sit.sitBitmap other

theorem openSitTarget_opened (toJournal : Bool) {segno : Nat} (fits : sbi.SitFits)
    (inMain : segno < sbi.mainSegments) (recorded : SitRecorded sbi state) :
    Opened sbi toJournal segno state (openSitTarget sbi toJournal segno state) := by
  cases toJournal with
  | true =>
      exact
        { recorded := recorded, sentries := rfl, bitmap := rfl, dirty := rfl, curseg := rfl
          warnings := rfl, others := fun _ _ => rfl
          pages := fun _ _ => ⟨rfl, SitTarget.noConfusion⟩
          journal := ⟨fun _ => rfl, fun _ => rfl⟩
          target := fun _ => SitTarget.noConfusion }
  | false =>
      have inside := fits segno inMain
      simp only [openSitTarget, Bool.false_eq_true, if_false, getNextSitPage_eq inside]
      refine
        { recorded := ⟨recorded.counted, recorded.packable, recorded.journal, recorded.distinct,
            fun other inMain' clean => ?_⟩
          sentries := rfl, bitmap := rfl, dirty := rfl, curseg := rfl, warnings := rfl
          others := fun offset ne => Function.update_of_ne ne _ _
          pages := fun address ne => ⟨Function.update_of_ne ne _ _, fun same => ?_⟩
          journal := ⟨SitTarget.noConfusion, Bool.noConfusion⟩
          target := fun address same other block => ?_ }
      · rw [storedSit_eq]
        have copied := @stored_switch _ sitEntryPerBlock _ _ state.sitPages state.sit.sitBitmap
          (sitBlockOffset segno) other separate_sitAddr inside (fits other inMain')
        have old := recorded.stored other inMain' clean
        rw [storedSit_eq] at old
        rw [lookup_congr fun _ => copied]
        exact old
      · exact ne (SitTarget.page.inj same).symm
      · rw [← SitTarget.page.inj same, currentSitAddr_eq]
        change _ = sbi.sitAddr (sitBlockOffset other)
          (Function.update state.sit.sitBitmap (sitBlockOffset segno)
            (!state.sit.sitBitmap (sitBlockOffset segno)) (sitBlockOffset other))
        rw [block, Function.update_self]

/-! ## The sets -/

/-- What holds while the sets of a flush from `start` on are taken. -/
structure FlushProgress (sbi : Sbi) (start : State) (flushing : Flushing)
    (sets : List SitEntrySet) : Prop where
  recorded : SitRecorded sbi flushing.state
  counted : SetsCounted sbi flushing.state.sit.dirtySentriesBitmap sets
  room : Room sbi flushing.state flushing.toJournal
  same : ∀ segno, SameEntry (start.sit.sentries segno) (flushing.state.sit.sentries segno)
  unswitched : ∀ ses ∈ sets,
    flushing.state.sit.sitBitmap (sitBlockOffset ses.startSegno) =
      start.sit.sitBitmap (sitBlockOffset ses.startSegno)
  previous : ∀ segno < sbi.mainSegments,
    flushing.state.sitPages (currentSitAddr sbi start.sit.sitBitmap segno) =
      start.sitPages (currentSitAddr sbi start.sit.sitBitmap segno)
  warnings : flushing.state.warnings = start.warnings

/-- A set whose entries have been flushed is done. -/
theorem SetsCounted.tail {dirty dirty' : BitMap} {ses : SitEntrySet} {sets : List SitEntrySet}
    (counted : SetsCounted sbi dirty (ses :: sets))
    (flushed : ∀ segno, dirty' segno = true ↔
      dirty segno = true ∧ segno ∉ setEntries sbi dirty ses.startSegno) :
    SetsCounted sbi dirty' sets := by
  obtain ⟨absent, distinct⟩ := List.nodup_cons.mp counted.distinct
  refine ⟨distinct, fun other mem => ?_,
    fun other mem => counted.aligned other (List.mem_cons_of_mem _ mem),
    fun other mem => counted.inMain other (List.mem_cons_of_mem _ mem),
    fun segno inMain isDirty => ?_⟩
  · rw [counted.count other (List.mem_cons_of_mem _ mem),
      setEntries_congr (counted.aligned other (List.mem_cons_of_mem _ mem))]
    intro segno _ own
    have away : segno ∉ setEntries sbi dirty ses.startSegno := by
      intro mem'
      have same := ((mem_setEntries (counted.aligned ses List.mem_cons_self)).mp mem').2.2
      exact absent (List.mem_map.mpr ⟨other, mem, own.symm.trans same⟩)
    rw [Bool.eq_iff_iff, flushed segno]
    exact (and_iff_left away).symm
  · obtain ⟨wasDirty, away⟩ := (flushed segno).mp isDirty
    obtain own | rest := hasSet_cons.mp (counted.covered segno inMain wasDirty)
    · exact absurd ((mem_setEntries (counted.aligned ses List.mem_cons_self)).mpr
        ⟨inMain, wasDirty, own.symm⟩) away
    · exact rest

theorem sitBlockOffset_startSegno (segno : Nat) :
    sitBlockOffset (startSegno segno) = sitBlockOffset segno := by
  simp only [startSegno, sitBlockOffset, sitEntryPerBlock]
  omega

/-- One set goes to its target, and the others keep theirs. -/
theorem flushSitEntrySet_progress {flushing : Flushing} {ses : SitEntrySet}
    {sets : List SitEntrySet} (fits : sbi.SitFits)
    (progress : FlushProgress sbi start flushing (ses :: sets)) :
    ∃ flushed, flushSitEntrySet sbi flushing ses = some flushed ∧
      FlushProgress sbi start flushed sets ∧ SameTrim flushing.cpc flushed.cpc := by
  obtain ⟨state, cpc, toJournal⟩ := flushing
  obtain ⟨recorded, counted, room, same, unswitched, previous, warnings⟩ := progress
  simp only at recorded counted room same unswitched previous warnings
  have inMain := counted.inMain ses List.mem_cons_self
  have aligned := counted.aligned ses List.mem_cons_self
  have entries := counted.count ses List.mem_cons_self
  have space : hasCursumSpace (state.curseg .coldData).sumBlk ses.entryCnt = true ↔ _ :=
    hasCursumSpace_iff recorded.journal.fits
  have fewer : (setEntries sbi state.sit.dirtySentriesBitmap ses.startSegno).length ≤
      state.sit.dirtySentries := recorded.counted ▸ length_setEntries_le ses.startSegno
  have opening := openSitTarget_opened (toJournal &&
    hasCursumSpace (state.curseg .coldData).sumBlk ses.entryCnt) fits inMain recorded
  simp only [flushSitEntrySet]
  generalize openSitTarget sbi _ ses.startSegno state = placed at opening ⊢
  obtain ⟨placed, target⟩ := placed
  have members : ∀ segno ∈ setEntries sbi state.sit.dirtySentriesBitmap ses.startSegno,
      segno < sbi.mainSegments ∧ state.sit.dirtySentriesBitmap segno = true ∧
        startSegno segno = ses.startSegno := fun segno => (mem_setEntries aligned).mp
  have curseg : placed.curseg = state.curseg := opening.curseg
  have slot : ∀ segno, placed.sitSlot segno = state.sitSlot segno := fun segno => by
    simp only [State.sitSlot, curseg]
  -- A set which does not fit the journal has no entry there.
  have fit : EntriesFit sbi placed (setEntries sbi state.sit.dirtySentriesBitmap ses.startSegno)
      target := by
    cases target with
    | journal =>
        have chosen := opening.journal.mp rfl
        rw [Bool.and_eq_true, space, entries] at chosen
        simp only [EntriesFit, curseg]
        exact chosen.2
    | page blkaddr =>
        intro segno mem
        obtain ⟨inMain', isDirty, own⟩ := members segno mem
        refine ⟨opening.target blkaddr rfl segno ?_, ?_⟩
        · rw [← own, sitBlockOffset_startSegno]
        · rw [slot]
          cases room with
          | journal free =>
              refine absurd (opening.journal.mpr ?_) SitTarget.noConfusion
              rw [Bool.and_eq_true, space, entries]
              exact ⟨rfl, by omega⟩
          | pages _ absent => exact absent segno inMain' isDirty
  obtain ⟨⟨flushed, cpc'⟩, loop, written, trim⟩ := flushSegnos_flushed cpc fits opening.recorded
    (fun segno mem => (members segno mem).1)
    (fun segno mem => by rw [opening.bitmap]; exact (members segno mem).2.1)
    (nodup_setEntries _) fit
  have visited : (placed.sit.dirtySentriesBitmap.setBits
      (min (ses.startSegno + sitEntryPerBlock) sbi.mainSegments)).filter
        (fun segno => decide (ses.startSegno ≤ segno)) =
      setEntries sbi state.sit.dirtySentriesBitmap ses.startSegno := by
    rw [opening.bitmap]
    rfl
  simp only at loop
  rw [visited, loop, ← entries]
  refine ⟨_, rfl, ?_, trim⟩
  have bits : ∀ segno, flushed.sit.dirtySentriesBitmap segno = true ↔
      state.sit.dirtySentriesBitmap segno = true ∧
        segno ∉ setEntries sbi state.sit.dirtySentriesBitmap ses.startSegno := by
    intro segno
    rw [written.bitmap, opening.bitmap]
  simp only [bugOn, ne_eq, not_true, decide_false, Bool.false_eq_true, if_false]
  refine
    { recorded := written.recorded
      counted := counted.tail bits
      room := ?_
      same := fun segno => (same segno).trans ?_
      unswitched := fun other mem => ?_
      previous := fun segno inMain' => ?_
      warnings := written.warnings.trans (opening.warnings.trans warnings) }
  · have count := written.count
    have dirty := written.dirty
    rw [curseg] at count
    rw [opening.dirty] at dirty
    cases room with
    | journal free =>
        have chosen : (true && hasCursumSpace (state.curseg .coldData).sumBlk ses.entryCnt) =
            true := by
          rw [Bool.true_and, space, entries]
          omega
        rw [chosen]
        refine .journal ?_
        simp only at count dirty ⊢
        omega
    | pages _ absent =>
        refine .pages _ fun segno inMain' isDirty => ?_
        obtain ⟨wasDirty, away⟩ := (bits segno).mp isDirty
        exact written.slots segno away ((slot segno).trans (absent segno inMain' wasDirty))
  · have kept := written.same segno
    rw [opening.sentries] at kept
    exact kept
  · rw [written.sitBitmap, opening.others, unswitched other (List.mem_cons_of_mem _ mem)]
    intro equal
    obtain ⟨segno, start_eq⟩ := aligned
    obtain ⟨segno', start_eq'⟩ := counted.aligned other (List.mem_cons_of_mem _ mem)
    rw [start_eq, start_eq', sitBlockOffset_startSegno, sitBlockOffset_startSegno] at equal
    apply (List.nodup_cons.mp counted.distinct).1
    refine List.mem_map.mpr ⟨other, mem, ?_⟩
    rw [start_eq, start_eq', startSegno, startSegno, equal]
  · have away : currentSitAddr sbi start.sit.sitBitmap segno ≠
        sbi.sitAddr (sitBlockOffset ses.startSegno)
          (!state.sit.sitBitmap (sitBlockOffset ses.startSegno)) := by
      intro equal
      obtain ⟨block, copy⟩ := separate_sitAddr _ (fits segno inMain') _
        (fits ses.startSegno inMain) _ _ equal
      rw [unswitched ses List.mem_cons_self] at copy
      change start.sit.sitBitmap (sitBlockOffset segno) = _ at copy
      rw [show sitBlockOffset segno = sitBlockOffset ses.startSegno from block] at copy
      exact Bool.not_ne_self _ copy.symm
    obtain ⟨untouched, other⟩ := opening.pages _ away
    exact (written.pages _ other).trans (untouched.trans (previous segno inMain'))

theorem flushSitEntrySets_progress {flushing : Flushing} {sets : List SitEntrySet}
    (fits : sbi.SitFits) (progress : FlushProgress sbi start flushing sets) :
    ∃ flushed, sets.foldlM (flushSitEntrySet sbi) flushing = some flushed ∧
      FlushProgress sbi start flushed [] ∧ SameTrim flushing.cpc flushed.cpc := by
  induction sets generalizing flushing with
  | nil => exact ⟨flushing, rfl, progress, rfl, rfl⟩
  | cons ses sets ih =>
      obtain ⟨next, flush, kept, trim⟩ := flushSitEntrySet_progress fits progress
      obtain ⟨flushed, later, done, trim'⟩ := ih kept
      refine ⟨flushed, ?_, done, trim'.reason.trans trim.reason, trim'.trimEnd.trans trim.trimEnd⟩
      rw [List.foldlM_cons, flush]
      exact later

/-! ## Emptying the journal -/

/-- The slots `indices` of the journal have been marked dirty. -/
structure SlotsMarked (sbi : Sbi) (sum : SummaryBlock) (indices : List Nat) (state : State)
    (marked : State × List SitEntrySet) : Prop where
  state_eq : marked.1 = { state with sit := marked.1.sit }
  sentries : marked.1.sit.sentries = state.sit.sentries
  sitBitmap : marked.1.sit.sitBitmap = state.sit.sitBitmap
  dirty : marked.1.sit.dirtySentries = marked.1.sit.dirtySentriesBitmap.popCount sbi.mainSegments
  counted : SetsCounted sbi marked.1.sit.dirtySentriesBitmap marked.2
  kept : ∀ segno, state.sit.dirtySentriesBitmap segno = true →
    marked.1.sit.dirtySentriesBitmap segno = true
  slots : ∀ index ∈ indices, marked.1.sit.dirtySentriesBitmap (sum.sitKeys index) = true

theorem removeSitInJournal_marked (sum : SummaryBlock) (indices : List Nat) (state : State)
    {sets : List SitEntrySet}
    (inMain : ∀ index ∈ indices, (sum.sitJournal index).segno < sbi.mainSegments)
    (dirty : state.sit.dirtySentries = state.sit.dirtySentriesBitmap.popCount sbi.mainSegments)
    (counted : SetsCounted sbi state.sit.dirtySentriesBitmap sets) :
    ∃ marked, indices.foldlM (fun marked index =>
        removeSitInJournal sbi (sum.sitJournal index).segno marked) (state, sets) = some marked ∧
      SlotsMarked sbi sum indices state marked := by
  induction indices generalizing state sets with
  | nil =>
      exact ⟨_, rfl, rfl, rfl, rfl, dirty, counted, fun _ => id, fun _ mem => by cases mem⟩
  | cons index indices ih =>
      have small := inMain index List.mem_cons_self
      obtain ⟨sets', remove, counted'⟩ := setsCounted_removeSitInJournal counted small
      have bitmap := dirtySentriesBitmap_markSitEntryDirty (sum.sitJournal index).segno state.sit
      obtain ⟨marked, later, rest⟩ := ih
        { state with sit := markSitEntryDirty (sum.sitJournal index).segno state.sit }
        (fun other mem => inMain other (List.mem_cons_of_mem _ mem))
        (dirtySentries_markSitEntryDirty small dirty) counted'
      refine ⟨marked, ?_, ?_⟩
      · rw [List.foldlM_cons, remove]
        exact later
      · have first : ∀ segno, segno = (sum.sitJournal index).segno ∨
            state.sit.dirtySentriesBitmap segno = true →
              marked.1.sit.dirtySentriesBitmap segno = true := by
          intro segno reason
          apply rest.kept
          simp only [bitmap, BitMap.set_apply]
          split
          · rfl
          · next ne => exact reason.resolve_left ne
        exact
          { state_eq := rest.state_eq
            sentries := rest.sentries.trans (sentries_markSitEntryDirty _ _)
            sitBitmap := rest.sitBitmap.trans (sitBitmap_markSitEntryDirty _ _)
            dirty := rest.dirty, counted := rest.counted
            kept := fun segno isDirty => first segno (.inr isDirty)
            slots := fun other mem => by
              obtain rfl | mem := List.mem_cons.mp mem
              · exact first _ (.inl rfl)
              · exact rest.slots other mem }

/-- The sets with which the loop of `flush_sit_entries` begins. -/
theorem removeSitsInJournal_progress (cpc : CpControl) {sets : List SitEntrySet}
    (recorded : SitRecorded sbi state)
    (counted : SetsCounted sbi state.sit.dirtySentriesBitmap sets) :
    ∃ emptied sets', removeSitsInJournal sbi state sets = some (emptied, sets') ∧
      FlushProgress sbi state ⟨emptied, cpc, true⟩ sets' := by
  obtain ⟨⟨marked, sets'⟩, loop, effect⟩ := removeSitInJournal_marked
    (state.curseg .coldData).sumBlk (List.range (state.curseg .coldData).sumBlk.nSits).reverse state
    (fun index mem => recorded.journal.inMain index (by simpa using mem)) recorded.counted counted
  simp only [removeSitsInJournal, loop, Option.map_some]
  refine ⟨_, _, rfl, ?_⟩
  obtain ⟨state_eq, sentries, sitBitmap, dirty, counted', kept, slots⟩ := effect
  simp only at state_eq sentries sitBitmap dirty counted' kept slots
  refine
    { recorded := ⟨dirty, fun segno inMain => ?_, ?_, ?_, fun segno inMain clean => ?_⟩
      counted := counted'
      room := .pages _ fun segno _ _ => ?_
      same := fun segno => ?_, unswitched := fun ses _ => ?_, previous := fun segno _ => ?_
      warnings := ?_ }
  · simp only [setColdSum, State.setCurseg, sentries]
    exact recorded.packable segno inMain
  · simp only [setColdSum, setCurseg_self]
    exact ⟨Nat.zero_le _, fun _ small => absurd small (Nat.not_lt_zero _)⟩
  · simp only [setColdSum, setCurseg_self]
    intro left small
    exact absurd small (Nat.not_lt_zero _)
  · -- An entry which is still clean was in no slot.
    simp only [setColdSum, State.setCurseg] at clean
    have wasClean : state.sit.dirtySentriesBitmap segno = false := by
      by_contra isDirty
      rw [kept segno (by simpa using isDirty)] at clean
      cases clean
    have absent : state.sitSlot segno = none := by
      rw [State.sitSlot, indexOf_eq_none]
      intro index small same
      have isDirty := slots index (by simpa using small)
      rw [same, clean] at isDirty
      cases isDirty
    have old := recorded.stored segno inMain wasClean
    have read : State.storedSit sbi (setColdSum
        { (marked.curseg .coldData).sumBlk with nSits := 0 } marked) segno =
          state.storedSit sbi segno := by
      rw [storedSit_eq, storedSit_eq, lookup, lookup]
      rw [State.sitSlot] at absent
      rw [absent, indexOf_eq_none.mpr]
      · simp only [setColdSum, State.setCurseg, sitBitmap]
        rw [state_eq]
      · simp only [setColdSum, setCurseg_self]
        intro index small
        exact absurd small (Nat.not_lt_zero _)
    rw [read]
    simp only [setColdSum, State.setCurseg, sentries]
    exact old
  · simp only [State.sitSlot, setColdSum, setCurseg_self]
    exact indexOf_eq_none.mpr fun index small => absurd small (Nat.not_lt_zero _)
  · simp only [setColdSum, State.setCurseg, sentries]
    exact .refl _
  · simp only [setColdSum, State.setCurseg, sitBitmap]
  · simp only [setColdSum, State.setCurseg]
    rw [state_eq]
  · simp only [setColdSum, State.setCurseg]
    rw [state_eq]

/-! ## The whole flush -/

/-- What `flush_sit_entries` leaves behind. -/
structure SitFlushed (sbi : Sbi) (state next : State) : Prop where
  clean : AllClean sbi next.sit
  noneDirty : next.sit.dirtySentries = 0
  recorded : SitRecorded sbi next
  same : ∀ segno, SameEntry (state.sit.sentries segno) (next.sit.sentries segno)
  previous : ∀ segno < sbi.mainSegments,
    next.sitPages (currentSitAddr sbi state.sit.sitBitmap segno) =
      state.sitPages (currentSitAddr sbi state.sit.sitBitmap segno)
  warnings : next.warnings = state.warnings

/-- When no set is left, everything has been written. -/
theorem FlushProgress.done {flushing : Flushing} (progress : FlushProgress sbi state flushing []) :
    SitFlushed sbi state flushing.state := by
  have clean : AllClean sbi flushing.state.sit := by
    intro segno inMain
    by_contra isDirty
    obtain ⟨ses, mem, _⟩ := progress.counted.covered segno inMain (by simpa using isDirty)
    cases mem
  exact
    { clean := clean
      noneDirty := progress.recorded.counted.trans (BitMap.popCount_eq_zero_iff.mpr clean)
      recorded := progress.recorded, same := progress.same, previous := progress.previous
      warnings := progress.warnings }

/-- A step of the flush which changes nothing that is written. -/
theorem SitFlushed.congr {flushed : State} (done : SitFlushed sbi state flushed)
    (sit : next.sit = flushed.sit) (curseg : next.curseg = flushed.curseg)
    (sitPages : next.sitPages = flushed.sitPages) (warnings : next.warnings = flushed.warnings) :
    SitFlushed sbi state next where
  clean := sit ▸ done.clean
  noneDirty := sit ▸ done.noneDirty
  recorded := done.recorded.congr sit curseg sitPages
  same := sit ▸ done.same
  previous := sitPages ▸ done.previous
  warnings := warnings.trans done.warnings

theorem flushSets_flushed {middle : State} {cpc : CpControl} {sets : List SitEntrySet}
    (fits : sbi.SitFits) (progress : FlushProgress sbi state ⟨middle, cpc, true⟩ sets) :
    ∃ flushed, flushSets sbi middle cpc sets = some flushed ∧ SitFlushed sbi state flushed.1 ∧
      SameTrim cpc flushed.2 := by
  unfold flushSets
  split
  · next noneDirty =>
      have clean := BitMap.popCount_eq_zero_iff.mp (progress.recorded.counted.symm.trans noneDirty)
      exact ⟨_, rfl, ⟨clean, noneDirty, progress.recorded, progress.same, progress.previous,
        progress.warnings⟩, rfl, rfl⟩
  · obtain ⟨flushed, loop, done, trim⟩ := flushSitEntrySets_progress fits progress
    rw [loop]
    have written := done.done
    refine ⟨_, rfl, ?_, trim⟩
    simp only [written.noneDirty, bugOn, ne_eq, not_true, decide_false, Bool.false_eq_true,
      if_false]
    exact written

/-- The candidates of a trim are collected without touching what has been written. -/
theorem trimSegments_flushed {flushed : State} {cpc : CpControl} {trimmed : State × CpControl}
    (done : SitFlushed sbi state flushed) (trim : trimSegments sbi flushed cpc = some trimmed) :
    SitFlushed sbi state trimmed.1 := by
  unfold trimSegments at trim
  split at trim
  · refine Execution.foldlM_invariant
      (fun queue : State × CpControl => SitFlushed sbi state queue.1)
      (fun segno _ queue queued kept step => ?_) done trim
    apply kept.congr <;> rw [addDiscardAddrs_state step]
  · obtain rfl := Option.some.inj trim
    exact done

theorem trimSegments_total {flushed : State} {cpc : CpControl}
    (trims : cpc.reason = .discard → cpc.trimEnd < sbi.mainSegments) :
    ∃ trimmed, trimSegments sbi flushed cpc = some trimmed := by
  unfold trimSegments
  split
  · next discard =>
      have inMain : ∀ segno ∈ List.range' cpc.trimStart (cpc.trimEnd + 1 - cpc.trimStart),
          segno < sbi.mainSegments := by
        intro segno mem
        have inside := trims discard
        rw [List.mem_range'_1] at mem
        omega
      generalize List.range' cpc.trimStart (cpc.trimEnd + 1 - cpc.trimStart) = segnos at inMain ⊢
      clear discard trims
      induction segnos generalizing flushed cpc with
      | nil => exact ⟨_, rfl⟩
      | cons segno segnos ih =>
          obtain ⟨⟨next, cpc'⟩, added, _⟩ := addDiscardAddrs_total flushed
            (show { cpc with trimStart := segno }.trimStart < _ from inMain segno List.mem_cons_self)
          obtain ⟨trimmed, later⟩ := ih fun other mem => inMain other (List.mem_cons_of_mem _ mem)
          refine ⟨trimmed, ?_⟩
          rw [List.foldlM_cons]
          simp only [added]
          exact later
  · exact ⟨_, rfl⟩

/-- All dirty entries are written before a trim collects its candidates. -/
theorem flushSitEntries_eq (cpc : CpControl) (fits : sbi.SitFits)
    (recorded : SitRecorded sbi state) :
    ∃ stored cpc', SitFlushed sbi state stored ∧ SameTrim cpc cpc' ∧
      flushSitEntries sbi cpc state = (trimSegments sbi stored cpc').map fun trimmed =>
        (setPrefreeAsFreeSegments sbi trimmed.1, trimmed.2) := by
  have counted : SetsCounted sbi _ _ := setsCounted_addSitsInSet state.sit
  have begin_loop : ∃ collected, (if hasCursumSpace (state.curseg .coldData).sumBlk
        state.sit.dirtySentries then some (state, addSitsInSet sbi state.sit)
      else removeSitsInJournal sbi state (addSitsInSet sbi state.sit)) = some collected ∧
        FlushProgress sbi state ⟨collected.1, cpc, true⟩ collected.2 := by
    split
    · next space =>
        rw [hasCursumSpace_iff recorded.journal.fits] at space
        exact ⟨_, rfl,
          { recorded := recorded, counted := counted, room := .journal space
            same := fun _ => .refl _, unswitched := fun _ _ => rfl
            previous := fun _ _ => rfl, warnings := rfl }⟩
    · obtain ⟨emptied, sets, removed, progress⟩ :=
        removeSitsInJournal_progress cpc recorded counted
      exact ⟨_, removed, progress⟩
  obtain ⟨⟨collected, sets⟩, begun, progress⟩ := begin_loop
  obtain ⟨⟨stored, cpc'⟩, store, done, trim⟩ := flushSets_flushed fits progress
  refine ⟨stored, cpc', done, trim, ?_⟩
  simp only [flushSitEntries, begun, Option.bind_some, store]

/-- What `flush_sit_entries` returns has all entries written. -/
theorem flushSitEntries_flushed {cpc : CpControl} {flushed : State × CpControl}
    (fits : sbi.SitFits) (recorded : SitRecorded sbi state)
    (flush : flushSitEntries sbi cpc state = some flushed) : SitFlushed sbi state flushed.1 := by
  obtain ⟨stored, cpc', done, _, flush_eq⟩ := flushSitEntries_eq cpc fits recorded
  rw [flush_eq, Option.map_eq_some_iff] at flush
  obtain ⟨trimmed, trim, rfl⟩ := flush
  exact (trimSegments_flushed done trim).congr rfl rfl rfl rfl

/-- It returns unless a trim goes beyond the main area. -/
theorem flushSitEntries_total {cpc : CpControl} (fits : sbi.SitFits)
    (recorded : SitRecorded sbi state)
    (trims : cpc.reason = .discard → cpc.trimEnd < sbi.mainSegments) :
    ∃ flushed, flushSitEntries sbi cpc state = some flushed := by
  obtain ⟨stored, cpc', _, same, flush_eq⟩ := flushSitEntries_eq cpc fits recorded
  obtain ⟨trimmed, trim⟩ := @trimSegments_total sbi stored cpc'
    fun discard => same.trimEnd ▸ trims (same.reason ▸ discard)
  rw [flush_eq, trim]
  exact ⟨_, rfl⟩

/-! ## Loading -/

/-- `build_sit_entries` gives every segment the entry it finds in the journal or in the current copy
of the SIT block. -/
theorem sentries_buildSitEntries (loaded : State) {segno : Nat} (inMain : segno < sbi.mainSegments) :
    (buildSitEntries sbi loaded).sit.sentries segno =
      segInfoFromRawSit (loaded.storedSit sbi segno) := by
  have general : ∀ count,
      (∀ segno, ((List.range count).foldl (buildSitEntry sbi) loaded).storedSit sbi segno =
        loaded.storedSit sbi segno) ∧
      ∀ segno < count, ((List.range count).foldl (buildSitEntry sbi) loaded).sit.sentries segno =
        segInfoFromRawSit (loaded.storedSit sbi segno) := by
    intro count
    induction count with
    | zero => exact ⟨fun _ => rfl, fun _ small => absurd small (Nat.not_lt_zero _)⟩
    | succ count ih =>
        obtain ⟨reads, built⟩ := ih
        rw [List.range_succ, List.foldl_append, List.foldl_cons, List.foldl_nil]
        refine ⟨fun segno => (show _ = State.storedSit sbi _ segno from rfl).trans (reads segno),
          fun segno small => ?_⟩
        by_cases last : segno = count
        · subst last
          rw [← reads segno]
          exact Function.update_self _ _ _
        · rw [← built segno (by omega)]
          exact Function.update_of_ne last _ _
  exact (general sbi.mainSegments).2 segno inMain

end F2fs
end StorageStack
