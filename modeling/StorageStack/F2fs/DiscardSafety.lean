import StorageStack.F2fs.Discards
import StorageStack.F2fs.SitInvariant

/-!
# Discards and live data

A checkpoint discards only blocks which are invalid in both maps of their segment when
`clear_prefree_segments` issues the discards.  It discards no block twice, except in a trim which
has flushed the entry of an empty segment while it still collected candidates, and then walks over
that segment again.
-/

namespace StorageStack
namespace F2fs

open Execution

variable {sbi : Sbi} {ready : Set CursegType} {state next : State} {cpc : CpControl}

/-! ## Blocks of a segment -/

/-- The discard covers invalid blocks of one segment. -/
def DeadIn (sbi : Sbi) (state : State) (segno : Nat) (entry : DiscardEntry) : Prop :=
  ∀ blkaddr, entry.Covers blkaddr → ∃ offset < sbi.blocksPerSeg,
    blkaddr = sbi.startBlock segno + offset ∧
      (state.sit.sentries segno).curValidMap offset = false

theorem deadIn_wholeSegment {segno : Nat}
    (accounted : SegAccounted sbi (state.sit.sentries segno))
    (empty : (state.sit.sentries segno).validBlocks = 0) :
    DeadIn sbi state segno (wholeSegment sbi segno) := by
  rintro blkaddr ⟨lower, upper⟩
  simp only [wholeSegment] at lower upper
  refine ⟨blkaddr - sbi.startBlock segno, by omega, by omega, ?_⟩
  exact accounted.invalid_of_zero empty _ (by omega)

theorem deadIn_runDiscard {segno : Nat} {run : Nat × Nat}
    (mem : run ∈ revRuns (state.sit.sentries segno).discardMap sbi.blocksPerSeg 0) :
    DeadIn sbi state segno (runDiscard sbi segno run) := by
  obtain ⟨_, _, inside, isSet⟩ := mem_revRuns mem
  rintro blkaddr ⟨lower, upper⟩
  simp only [runDiscard] at lower upper
  refine ⟨blkaddr - sbi.startBlock segno, by omega, by omega, ?_⟩
  have dropped := isSet (blkaddr - sbi.startBlock segno) (by omega) (by omega)
  simp only [SegEntry.discardMap, Bool.and_eq_true, bne_iff_ne] at dropped
  simpa [dropped.2] using dropped.1

/-- A candidate covers invalid blocks of its segment. -/
theorem deadIn_candidates {segno : Nat} {entry : DiscardEntry}
    (accounted : SegAccounted sbi (state.sit.sentries segno))
    (mem : entry ∈ candidates sbi cpc state segno) : DeadIn sbi state segno entry := by
  simp only [candidates] at mem
  split at mem
  · split at mem
    · next vacant =>
        rw [List.mem_singleton.mp mem]
        exact deadIn_wholeSegment accounted vacant.2.1
    · cases mem
  · obtain ⟨run, long, rfl⟩ := List.mem_map.mp mem
    exact deadIn_runDiscard (List.mem_of_mem_filter long)

theorem deadIn_vacantDiscards {segno : Nat} {entry : DiscardEntry}
    (accounted : SegAccounted sbi (state.sit.sentries segno))
    (mem : entry ∈ vacantDiscards sbi state segno) : DeadIn sbi state segno entry := by
  simp only [vacantDiscards] at mem
  split at mem
  · next vacant =>
      rw [List.mem_singleton.mp mem]
      exact deadIn_wholeSegment accounted vacant.1
  · cases mem

/-- A prefree segment has no candidates. -/
theorem candidates_prefree {segno : Nat} (consistent : Consistent sbi ∅ ready state)
    (inMain : segno < sbi.mainSegments) (pre : state.dirty.dirtySegmap .pre segno = true) :
    candidates sbi cpc state segno = [] ∧ vacantDiscards sbi state segno = [] := by
  have empty := (prefree_of_listed consistent inMain pre).empty
  have occupied : ¬ state.Vacant segno := fun vacant =>
    absurd (vacant.2.symm.trans pre) (by simp)
  constructor
  · simp only [candidates]
    rw [if_pos (.inl empty), if_neg fun vacant => occupied vacant.2]
  · rw [vacantDiscards, if_neg occupied]

/-! ## The discards of a checkpoint -/

variable {flushed : State}

/-- Every discard in the queue covers invalid blocks of a segment which is not prefree. -/
theorem Gathered.dead (gathered : Gathered sbi cpc state flushed)
    (consistent : Consistent sbi ∅ ready state) {entry : DiscardEntry}
    (mem : entry ∈ flushed.discardList) : ∃ segno < sbi.mainSegments,
      state.dirty.dirtySegmap .pre segno = false ∧ DeadIn sbi state segno entry := by
  have notPre : ∀ segno < sbi.mainSegments, entry ∈ candidates sbi cpc state segno ∨
      entry ∈ vacantDiscards sbi state segno → state.dirty.dirtySegmap .pre segno = false := by
    intro segno inMain queued
    by_contra isPre
    obtain ⟨none, none'⟩ :=
      @candidates_prefree sbi ready state cpc segno consistent inMain (by simpa using isPre)
    rw [none, none'] at queued
    simp at queued
  by_cases forces : cpc.reason = .discard
  · obtain ⟨walked, list⟩ := gathered.trim forces
    rw [list, List.mem_append, List.mem_flatMap, List.mem_flatMap] at mem
    obtain ⟨segno, visited, queued⟩ | ⟨segno, visited, queued⟩ := mem
    · have inMain := gathered.inMain segno ((roomySegnos_sublist _ _).subset visited)
      exact ⟨segno, inMain, notPre segno inMain (.inl queued),
        deadIn_candidates (consistent.sit.entry segno inMain) queued⟩
    · have inMain := walked segno visited
      exact ⟨segno, inMain, notPre segno inMain (.inr queued),
        deadIn_vacantDiscards (consistent.sit.entry segno inMain) queued⟩
  · obtain ⟨added, subs, list⟩ := gathered.online forces
    rw [list, List.mem_flatMap] at mem
    obtain ⟨segno, visited, queued⟩ := mem
    have inMain := gathered.inMain segno visited
    have candidate := (subs segno).subset queued
    exact ⟨segno, inMain, notPre segno inMain (.inl candidate),
      deadIn_candidates (consistent.sit.entry segno inMain) candidate⟩

end F2fs
end StorageStack
