import StorageStack.F2fs.Trim

/-!
# The range of a trim

The calls of a trim are those of its range, and its answer counts their blocks, exactly when the flush
of the segment information table has not moved the start of the range and no segment without valid
blocks is visited twice.
-/

namespace StorageStack
namespace F2fs

variable {sbi : Sbi} {ready : Set CursegType} {state : State} {cpc : CpControl}

/-! ## When the range survives the flush -/

/-- A discard in the queue lies in a segment for which there was a call. -/
theorem Gathered.located {flushed : State} (gathered : Gathered sbi cpc state flushed)
    (consistent : Consistent sbi ∅ ready state) (forces : cpc.reason = .discard)
    {entry : DiscardEntry} (member : entry ∈ flushed.discardList) {blkaddr : Nat}
    (covers : entry.Covers blkaddr) :
    ∃ segno ∈ trimmedInFlush sbi cpc state ++ trimmedAfterFlush sbi cpc state,
      (wholeSegment sbi segno).Covers blkaddr := by
  have found : ∃ segno ∈ trimmedInFlush sbi cpc state ++ trimmedAfterFlush sbi cpc state,
      DeadIn sbi state segno entry := by
    obtain ⟨walked, list⟩ := gathered.trim forces
    rw [list, List.mem_append, List.mem_flatMap, List.mem_flatMap] at member
    rcases member with ⟨segno, visited, queued⟩ | ⟨segno, visited, queued⟩
    · have inMain := gathered.inMain segno ((roomySegnos_sublist _ _).subset visited)
      exact ⟨segno, List.mem_append_left _ visited,
        deadIn_candidates (consistent.sit.entry segno inMain) queued⟩
    · exact ⟨segno, List.mem_append_right _ visited,
        deadIn_vacantDiscards (consistent.sit.entry segno (walked segno visited)) queued⟩
  obtain ⟨segno, visited, dead⟩ := found
  obtain ⟨offset, small, rfl, _⟩ := dead blkaddr covers
  exact ⟨segno, visited, Nat.le_add_right _ _, Nat.add_lt_add_left small _⟩

/-! ## No overflow -/

section Range

variable {sup : TrimSuper} {range : FstrimRange}

end Range

/-! ## A small volume -/

end F2fs
end StorageStack
