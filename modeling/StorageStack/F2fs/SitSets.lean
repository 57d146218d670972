import StorageStack.F2fs.CheckpointSteps

/-!
# Counting the sets of dirty entries

`add_sit_entry` keeps one set for each SIT block with dirty entries.  The list is sorted by the
number of entries as it grows, so the lemmas describe it up to its order: every block has one set,
and the set knows how many entries of the block are dirty.
-/

namespace StorageStack
namespace F2fs

variable {sbi : Sbi} {dirty : BitMap} {sets : List SitEntrySet}

/-! ## The entries of a set -/

/-- The dirty entries over which `flush_sit_entries` walks for the SIT block from `start` on. -/
def setEntries (sbi : Sbi) (dirty : BitMap) (start : Nat) : List Nat :=
  (dirty.setBits (min (start + sitEntryPerBlock) sbi.mainSegments)).filter
    fun segno => start ≤ segno

theorem nodup_setEntries (start : Nat) : (setEntries sbi dirty start).Nodup :=
  (BitMap.nodup_setBits _ _).filter _

theorem startSegno_eq_iff {start : Nat} (segno : Nat) (aligned : ∃ other, start = startSegno other) :
    startSegno segno = start ↔ start ≤ segno ∧ segno < start + sitEntryPerBlock := by
  obtain ⟨other, rfl⟩ := aligned
  simp only [startSegno, sitBlockOffset, sitEntryPerBlock]
  omega

theorem mem_setEntries {segno start : Nat} (aligned : ∃ other, start = startSegno other) :
    segno ∈ setEntries sbi dirty start ↔
      segno < sbi.mainSegments ∧ dirty segno = true ∧ startSegno segno = start := by
  rw [startSegno_eq_iff segno aligned, setEntries, List.mem_filter, BitMap.mem_setBits, lt_min_iff,
    decide_eq_true_eq]
  tauto

theorem setEntries_congr {dirty' : BitMap} {start : Nat} (aligned : ∃ other, start = startSegno other)
    (agree : ∀ segno < sbi.mainSegments, startSegno segno = start → dirty' segno = dirty segno) :
    setEntries sbi dirty' start = setEntries sbi dirty start := by
  unfold setEntries BitMap.setBits
  rw [List.filter_filter, List.filter_filter]
  refine List.filter_congr fun segno small => ?_
  rw [List.mem_range, lt_min_iff] at small
  by_cases from_start : start ≤ segno
  · rw [agree segno small.2 ((startSegno_eq_iff segno aligned).mpr ⟨from_start, small.1⟩)]
  · simp [from_start]

theorem length_setEntries (start : Nat) :
    (setEntries sbi dirty start).length =
      BitMap.popCount (fun bit => dirty bit && decide (start ≤ bit))
        (min (start + sitEntryPerBlock) sbi.mainSegments) := by
  rw [← BitMap.length_setBits, setEntries, BitMap.setBits, BitMap.setBits, List.filter_filter]
  congr 2
  funext bit
  exact Bool.and_comm _ _

theorem length_setEntries_le (start : Nat) :
    (setEntries sbi dirty start).length ≤ dirty.popCount sbi.mainSegments := by
  rw [← BitMap.length_setBits]
  refine (List.filter_sublist.trans ?_).length_le
  rw [BitMap.setBits, BitMap.setBits]
  exact (List.range_sublist.mpr (min_le_right _ _)).filter _

/-- A new dirty entry counts for the set of its block. -/
theorem length_setEntries_set {segno start : Nat} (inMain : segno < sbi.mainSegments)
    (clean : dirty segno = false) (aligned : ∃ other, start = startSegno other) :
    (setEntries sbi (dirty.set segno) start).length =
      (setEntries sbi dirty start).length + if startSegno segno = start then 1 else 0 := by
  rw [length_setEntries, length_setEntries]
  have block := startSegno_eq_iff segno aligned
  split
  · next own =>
      obtain ⟨from_start, before⟩ := block.mp own
      have masked : (fun bit => dirty.set segno bit && decide (start ≤ bit)) =
          BitMap.set (fun bit => dirty bit && decide (start ≤ bit)) segno := by
        funext bit
        by_cases same : bit = segno
        · subst same
          simp [from_start]
        · simp [BitMap.set_of_ne same]
      rw [masked]
      exact BitMap.popCount_set (lt_min before inMain) (by simp [clean])
  · next other =>
      refine BitMap.popCount_congr fun bit small => ?_
      by_cases same : bit = segno
      · subst same
        have before : ¬ start ≤ bit := fun from_start =>
          other (block.mpr ⟨from_start, (lt_min_iff.mp small).1⟩)
        simp [before]
      · rw [BitMap.set_of_ne same]

/-! ## The list of sets -/

/-- Every SIT block with dirty entries has one set, with the number of these entries. -/
structure SetsCounted (sbi : Sbi) (dirty : BitMap) (sets : List SitEntrySet) : Prop where
  distinct : (sets.map SitEntrySet.startSegno).Nodup
  count : ∀ ses ∈ sets, ses.entryCnt = (setEntries sbi dirty ses.startSegno).length
  aligned : ∀ ses ∈ sets, ∃ segno, ses.startSegno = startSegno segno
  inMain : ∀ ses ∈ sets, ses.startSegno < sbi.mainSegments
  covered : ∀ segno < sbi.mainSegments, dirty segno = true → HasSet sets (startSegno segno)

theorem adjustSitEntrySet_perm (ses : SitEntrySet) (sets : List SitEntrySet) :
    (adjustSitEntrySet ses sets).Perm (ses :: sets) := by
  induction sets with
  | nil => exact .refl _
  | cons next sets ih =>
      unfold adjustSitEntrySet
      split
      · exact .refl _
      · exact (ih.cons next).trans (.swap ses next sets)

/-- `add_sit_entry` counts the entry in the set of its block. -/
theorem countSitEntry_perm {start : Nat} {counted : List SitEntrySet}
    (count : countSitEntry start sets = some counted) :
    ∃ ses rest, ses.startSegno = start ∧ sets.Perm (ses :: rest) ∧
      counted.Perm ({ ses with entryCnt := ses.entryCnt + 1 } :: rest) := by
  induction sets generalizing counted with
  | nil => cases count
  | cons first sets ih =>
      unfold countSitEntry at count
      split at count
      · next same =>
          obtain rfl := Option.some.inj count
          exact ⟨first, sets, same, .refl _, adjustSitEntrySet_perm _ _⟩
      · obtain ⟨later, found, rfl⟩ := Option.map_eq_some_iff.mp count
        obtain ⟨ses, rest, same, before, after⟩ := ih found
        exact ⟨ses, first :: rest, same, (before.cons first).trans (.swap _ _ _),
          (after.cons first).trans (.swap _ _ _)⟩

theorem countSitEntry_none {start : Nat} :
    countSitEntry start sets = none ↔ ¬ HasSet sets start := by
  induction sets with
  | nil => simp [countSitEntry, HasSet]
  | cons first sets ih =>
      rw [hasSet_cons]
      unfold countSitEntry
      split
      · next same => simp [same]
      · next ne => simp [ih, ne]

theorem SetsCounted.of_perm {sets' : List SitEntrySet} (counted : SetsCounted sbi dirty sets)
    (perm : sets'.Perm sets) : SetsCounted sbi dirty sets' where
  distinct := (perm.map _).nodup_iff.mpr counted.distinct
  count ses mem := counted.count ses (perm.mem_iff.mp mem)
  aligned ses mem := counted.aligned ses (perm.mem_iff.mp mem)
  inMain ses mem := counted.inMain ses (perm.mem_iff.mp mem)
  covered segno inMain isDirty := by
    obtain ⟨ses, mem, same⟩ := counted.covered segno inMain isDirty
    exact ⟨ses, perm.mem_iff.mpr mem, same⟩

/-- Counting a new dirty entry keeps the sets. -/
theorem SetsCounted.addSitEntry {segno : Nat} (counted : SetsCounted sbi dirty sets)
    (inMain : segno < sbi.mainSegments) (clean : dirty segno = false) :
    SetsCounted sbi (dirty.set segno) (addSitEntry sets segno) := by
  have covered : ∀ other < sbi.mainSegments, dirty.set segno other = true →
      HasSet (F2fs.addSitEntry sets segno) (startSegno other) := by
    intro other inMain' isDirty
    rw [hasSet_addSitEntry]
    by_cases same : other = segno
    · exact .inl (same ▸ rfl)
    · rw [BitMap.set_of_ne same] at isDirty
      exact .inr (counted.covered other inMain' isDirty)
  unfold F2fs.addSitEntry at covered ⊢
  cases found : countSitEntry (startSegno segno) sets with
  | none =>
      have absent := countSitEntry_none.mp found
      have nothing : (setEntries sbi dirty (startSegno segno)).length = 0 := by
        rw [List.length_eq_zero_iff, List.eq_nil_iff_forall_not_mem]
        intro other mem
        obtain ⟨inMain', isDirty, same⟩ := (mem_setEntries ⟨segno, rfl⟩).mp mem
        exact absent (same ▸ counted.covered other inMain' isDirty)
      rw [found] at covered
      refine ⟨?_, ?_, ?_, ?_, covered⟩
      · rw [Option.getD_none, List.map_cons, List.nodup_cons]
        refine ⟨fun mem => absent ?_, counted.distinct⟩
        obtain ⟨ses, mem, same⟩ := List.mem_map.mp mem
        exact ⟨ses, mem, same⟩
      · intro ses mem
        rw [Option.getD_none, List.mem_cons] at mem
        obtain rfl | mem := mem
        · rw [length_setEntries_set inMain clean ⟨segno, rfl⟩, nothing, if_pos rfl]
        · rw [length_setEntries_set inMain clean (counted.aligned ses mem), counted.count ses mem,
            if_neg, Nat.add_zero]
          rintro same
          exact absent ⟨ses, mem, same.symm⟩
      · intro ses mem
        obtain rfl | mem := List.mem_cons.mp mem
        · exact ⟨segno, rfl⟩
        · exact counted.aligned ses mem
      · intro ses mem
        obtain rfl | mem := List.mem_cons.mp mem
        · exact Nat.lt_of_le_of_lt (Nat.div_mul_le_self _ _) inMain
        · exact counted.inMain ses mem
  | some after =>
      obtain ⟨ses, rest, same, before, perm⟩ := countSitEntry_perm found
      rw [found, Option.getD_some] at covered
      rw [Option.getD_some]
      have old := counted.of_perm before.symm
      have names := List.nodup_cons.mp old.distinct
      refine SetsCounted.of_perm ⟨?_, ?_, ?_, ?_, ?_⟩ perm
      · exact old.distinct
      · intro other mem
        obtain rfl | mem := List.mem_cons.mp mem
        · rw [length_setEntries_set inMain clean (old.aligned ses List.mem_cons_self),
            ← old.count ses List.mem_cons_self, if_pos same.symm]
        · rw [length_setEntries_set inMain clean (old.aligned other (List.mem_cons_of_mem _ mem)),
            ← old.count other (List.mem_cons_of_mem _ mem), if_neg, Nat.add_zero]
          intro equal
          exact names.1 (List.mem_map.mpr ⟨other, mem, equal.symm.trans same.symm⟩)
      · intro other mem
        obtain rfl | mem := List.mem_cons.mp mem
        · exact old.aligned ses List.mem_cons_self
        · exact old.aligned other (List.mem_cons_of_mem _ mem)
      · intro other mem
        obtain rfl | mem := List.mem_cons.mp mem
        · exact old.inMain ses List.mem_cons_self
        · exact old.inMain other (List.mem_cons_of_mem _ mem)
      · intro other inMain' isDirty
        obtain ⟨entry, mem, named⟩ := covered other inMain' isDirty
        exact ⟨entry, perm.mem_iff.mp mem, named⟩

theorem SetsCounted.foldl_addSitEntry {segnos : List Nat} (counted : SetsCounted sbi dirty sets)
    (inMain : ∀ segno ∈ segnos, segno < sbi.mainSegments)
    (clean : ∀ segno ∈ segnos, dirty segno = false) (distinct : segnos.Nodup) :
    SetsCounted sbi (segnos.foldl BitMap.set dirty) (segnos.foldl F2fs.addSitEntry sets) := by
  induction segnos generalizing dirty sets with
  | nil => exact counted
  | cons segno segnos ih =>
      obtain ⟨absent, distinct⟩ := List.nodup_cons.mp distinct
      refine ih (counted.addSitEntry (inMain segno List.mem_cons_self)
        (clean segno List.mem_cons_self)) (fun other mem => inMain other (List.mem_cons_of_mem _ mem))
        (fun other mem => ?_) distinct
      have ne : other ≠ segno := by
        rintro rfl
        exact absent mem
      rw [BitMap.set_of_ne ne]
      exact clean other (List.mem_cons_of_mem _ mem)

theorem SetsCounted.congr {dirty' : BitMap} (counted : SetsCounted sbi dirty sets)
    (agree : ∀ segno < sbi.mainSegments, dirty' segno = dirty segno) :
    SetsCounted sbi dirty' sets where
  distinct := counted.distinct
  count ses mem := by
    rw [counted.count ses mem, length_setEntries, length_setEntries]
    refine BitMap.popCount_congr fun bit small => ?_
    rw [agree bit (lt_min_iff.mp small).2]
  aligned := counted.aligned
  inMain := counted.inMain
  covered segno inMain isDirty := counted.covered segno inMain (agree segno inMain ▸ isDirty)

theorem setsCounted_nil : SetsCounted sbi .empty [] where
  distinct := List.nodup_nil
  count _ mem := by cases mem
  aligned _ mem := by cases mem
  inMain _ mem := by cases mem
  covered _ _ isDirty := by cases isDirty

/-- `add_sits_in_set` counts all dirty entries. -/
theorem setsCounted_addSitsInSet (sit : SitInfo) :
    SetsCounted sbi sit.dirtySentriesBitmap (addSitsInSet sbi sit) := by
  have counted : SetsCounted sbi
      ((sit.dirtySentriesBitmap.setBits sbi.mainSegments).foldl BitMap.set .empty)
      (addSitsInSet sbi sit) :=
    setsCounted_nil.foldl_addSitEntry (fun segno mem => (BitMap.mem_setBits.mp mem).1)
      (fun _ _ => rfl) (BitMap.nodup_setBits _ _)
  refine counted.congr fun segno inMain => ?_
  rw [BitMap.foldl_set_setBits, if_pos inMain]

/-- Marking the entry of a journal slot dirty counts it. -/
theorem setsCounted_removeSitInJournal {segno : Nat} {state : State}
    (counted : SetsCounted sbi state.sit.dirtySentriesBitmap sets)
    (inMain : segno < sbi.mainSegments) :
    ∃ sets', removeSitInJournal sbi segno (state, sets) =
        some ({ state with sit := markSitEntryDirty segno state.sit }, sets') ∧
      SetsCounted sbi (markSitEntryDirty segno state.sit).dirtySentriesBitmap sets' := by
  simp only [removeSitInJournal, if_neg (show ¬ sbi.mainSegments ≤ segno by omega)]
  refine ⟨_, rfl, ?_⟩
  cases already : state.sit.dirtySentriesBitmap segno with
  | true =>
      rw [if_pos rfl]
      simp only [markSitEntryDirty, already, if_true]
      exact counted
  | false =>
      rw [if_neg (by simp), dirtySentriesBitmap_markSitEntryDirty]
      exact counted.addSitEntry inMain already

end F2fs
end StorageStack
