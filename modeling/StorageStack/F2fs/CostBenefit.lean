import StorageStack.F2fs.VictimSelection

/-!
# The cost of cleaning a section

`get_cb_cost` weighs the age of a section against the blocks that must be moved out of it.  Its
arithmetic is exact as long as the modification times of the segments of a section sum to less than
`2 ^ 64`; then an older section with fewer valid blocks is never dearer.
-/

namespace StorageStack
namespace F2fs
namespace VictimSelection

variable {sbi : Sbi} {state : State}

/-! ## The first bounds -/

/-- `LLONG_MAX`. -/
def llongMax : Nat := 2 ^ 63 - 1

/-- `init_min_max_mtime`; `mtime` is what `get_mtime` returns. -/
def initMinMaxMtime (sbi : Sbi) (state : State) (mtime : Nat) : Mtimes where
  minMtime := (List.range sbi.totalSections).foldl
    (fun least secno => min least (sectionMtime sbi state (secno * sbi.segsPerSec))) llongMax
  maxMtime := mtime

/-! ## Inputs -/

/-- The modification times of the segments of a section. -/
def segmentMtime (sbi : Sbi) (state : State) (segno index : Nat) : Nat :=
  (state.sit.sentries (sbi.getSecno segno * sbi.segsPerSec + index)).mtime

/-- The times of a section are below `2 ^ 57` and sum to less than `2 ^ 64`, and its counter of
valid blocks is not above the blocks that it has. -/
structure CostInputs (sbi : Sbi) (state : State) (segno : Nat) : Prop where
  times : ∀ index < sbi.segsPerSec, segmentMtime sbi state segno index < 2 ^ 57
  sum : ∑ index ∈ Finset.range sbi.segsPerSec, segmentMtime sbi state segno index < 2 ^ 64
  valid : getValidBlocks sbi state segno sbi.segsPerSec ≤ sbi.blocksPerSeg * sbi.segsPerSec

theorem sum_le_of_lt {segno : Nat}
    (times : ∀ index < sbi.segsPerSec, segmentMtime sbi state segno index < 2 ^ 57) :
    ∑ index ∈ Finset.range sbi.segsPerSec, segmentMtime sbi state segno index ≤
      sbi.segsPerSec * (2 ^ 57 - 1) := by
  have each : ∀ index ∈ Finset.range sbi.segsPerSec,
      segmentMtime sbi state segno index ≤ 2 ^ 57 - 1 :=
    fun index mem => Nat.le_sub_one_of_lt (times index (Finset.mem_range.1 mem))
  simpa using Finset.sum_le_card_nsmul _ _ _ each

/-- The times of up to 128 segments sum to less than `2 ^ 64`. -/
theorem sum_lt_of_few {segno : Nat} (few : sbi.segsPerSec ≤ 128)
    (times : ∀ index < sbi.segsPerSec, segmentMtime sbi state segno index < 2 ^ 57) :
    ∑ index ∈ Finset.range sbi.segsPerSec, segmentMtime sbi state segno index < 2 ^ 64 :=
  calc
    _ ≤ sbi.segsPerSec * (2 ^ 57 - 1) := sum_le_of_lt times
    _ ≤ 128 * (2 ^ 57 - 1) := Nat.mul_le_mul_right _ few
    _ < 2 ^ 64 := by norm_num

namespace CostInputs

variable {segno : Nat}

theorem sectionMtime_eq (inputs : CostInputs sbi state segno) :
    sectionMtime sbi state segno =
      (∑ index ∈ Finset.range sbi.segsPerSec, segmentMtime sbi state segno index) /
        sbi.segsPerSec := by
  have sum := inputs.sum
  simp only [segmentMtime] at sum
  rw [sectionMtime, Nat.mod_eq_of_lt sum]
  rfl

theorem sectionMtime_lt (inputs : CostInputs sbi state segno) :
    sectionMtime sbi state segno < 2 ^ 57 := by
  rw [inputs.sectionMtime_eq, Nat.div_lt_iff_lt_mul sbi.segsPerSec_pos]
  calc
    _ ≤ sbi.segsPerSec * (2 ^ 57 - 1) := sum_le_of_lt inputs.times
    _ < sbi.segsPerSec * 2 ^ 57 := Nat.mul_lt_mul_of_pos_left (by norm_num) sbi.segsPerSec_pos
    _ = 2 ^ 57 * sbi.segsPerSec := Nat.mul_comm _ _

theorem mean_le (inputs : CostInputs sbi state segno) :
    getValidBlocks sbi state segno sbi.segsPerSec / sbi.segsPerSec ≤ sbi.blocksPerSeg :=
  Nat.div_le_of_le_mul (by rw [Nat.mul_comm]; exact inputs.valid)

theorem blocksPerSeg_le (sbi : Sbi) : sbi.blocksPerSeg ≤ 512 := by
  rw [Sbi.blocksPerSeg]
  calc
    2 ^ sbi.logBlocksPerSeg ≤ 2 ^ 9 := Nat.pow_le_pow_right (by decide) sbi.log_bounds.2
    _ = 512 := by norm_num

theorem percent_lt (inputs : CostInputs sbi state segno) :
    getValidBlocks sbi state segno sbi.segsPerSec / sbi.segsPerSec * 100 < 2 ^ 32 := by
  have mean := inputs.mean_le
  have blocks := blocksPerSeg_le sbi
  omega

theorem percent_div_le (inputs : CostInputs sbi state segno) :
    getValidBlocks sbi state segno sbi.segsPerSec / sbi.segsPerSec * 100 / sbi.blocksPerSeg ≤
      100 := by
  apply Nat.div_le_of_le_mul
  exact Nat.mul_le_mul_right _ inputs.mean_le

theorem utilization_eq (inputs : CostInputs sbi state segno) :
    utilization sbi state segno =
      getValidBlocks sbi state segno sbi.segsPerSec / sbi.segsPerSec * 100 / sbi.blocksPerSeg := by
  have le := inputs.percent_div_le
  rw [utilization, Nat.mod_eq_of_lt inputs.percent_lt, Nat.shiftRight_eq_div_pow,
    ← Sbi.blocksPerSeg]
  exact Nat.mod_eq_of_lt (by omega)

end CostInputs

/-! ## The computation -/

/-- The arithmetic of `get_cb_cost` is exact, its parts are percentages, and the bounds on the
modification times take the section in. -/
structure CostSound (sbi : Sbi) (state : State) (mtimes : Mtimes) (segno : Nat) : Prop where
  sum : ∑ index ∈ Finset.range sbi.segsPerSec, segmentMtime sbi state segno index < 2 ^ 64
  divisors : sbi.segsPerSec ≠ 0 ∧ 100 + utilization sbi state segno ≠ 0
  percent : getValidBlocks sbi state segno sbi.segsPerSec / sbi.segsPerSec * 100 < 2 ^ 32
  utilization_le : utilization sbi state segno ≤ 100
  scaled : 100 * (sectionMtime sbi state segno - (getCbCost sbi state mtimes segno).2.minMtime) <
    2 ^ 64
  quotient_le : 100 * (sectionMtime sbi state segno - (getCbCost sbi state mtimes segno).2.minMtime) /
    ((getCbCost sbi state mtimes segno).2.maxMtime - (getCbCost sbi state mtimes segno).2.minMtime) ≤
      100
  age_le : (getCbCost sbi state mtimes segno).2.age (sectionMtime sbi state segno) ≤ 100
  cost_ge : uintMax - 10000 ≤ (getCbCost sbi state mtimes segno).1
  min_le : (getCbCost sbi state mtimes segno).2.minMtime ≤ mtimes.minMtime
  min_le_mtime : (getCbCost sbi state mtimes segno).2.minMtime ≤ sectionMtime sbi state segno
  mtime_le_max : sectionMtime sbi state segno ≤ (getCbCost sbi state mtimes segno).2.maxMtime

/-- The benefit of cleaning a section, without machine arithmetic. -/
def benefit (u age : Nat) : Nat := 100 * (100 - u) * age / (100 + u)

/-- The age of a modification time between two others, without machine arithmetic. -/
def ageBetween (mtimes : Mtimes) (mtime : Nat) : Nat :=
  if mtimes.maxMtime = mtimes.minMtime then 0
  else 100 - 100 * (mtime - mtimes.minMtime) / (mtimes.maxMtime - mtimes.minMtime)

theorem benefit_le {u age : Nat} (age_le : age ≤ 100) : benefit u age ≤ 10000 := by
  apply Nat.div_le_of_le_mul
  calc
    100 * (100 - u) * age ≤ 100 * 100 * 100 :=
      Nat.mul_le_mul (Nat.mul_le_mul_left _ (Nat.sub_le _ _)) age_le
    _ ≤ (100 + u) * 10000 := by omega

/-- More valid blocks and less age make the benefit smaller. -/
theorem benefit_anti {u other age otherAge : Nat} (fuller : u ≤ other) (younger : otherAge ≤ age) :
    benefit other otherAge ≤ benefit u age := by
  apply Nat.div_le_div
  · exact Nat.mul_le_mul (Nat.mul_le_mul_left _ (Nat.sub_le_sub_left fuller _)) younger
  · exact Nat.add_le_add_left fuller _
  · omega

/-- Of two times between the same bounds the later one has no more age. -/
theorem ageBetween_anti (mtimes : Mtimes) {mtime later : Nat} (le : mtime ≤ later) :
    ageBetween mtimes later ≤ ageBetween mtimes mtime := by
  rw [ageBetween, ageBetween]
  split
  · exact Nat.le_refl _
  · apply Nat.sub_le_sub_left
    exact Nat.div_le_div_right (Nat.mul_le_mul_left _ (Nat.sub_le_sub_right le _))

theorem quotient_le {mtimes : Mtimes} {mtime : Nat} (le : mtime ≤ mtimes.maxMtime) :
    100 * (mtime - mtimes.minMtime) / (mtimes.maxMtime - mtimes.minMtime) ≤ 100 := by
  apply Nat.div_le_of_le_mul
  rw [Nat.mul_comm]
  exact Nat.mul_le_mul_right _ (Nat.sub_le_sub_right le _)

/-- Between bounds that take it in, the age of a time below `2 ^ 57` is computed exactly. -/
theorem age_eq {mtimes : Mtimes} {mtime : Nat} (bounded : mtime < 2 ^ 57)
    (le : mtime ≤ mtimes.maxMtime) : mtimes.age mtime = ageBetween mtimes mtime := by
  have scaled : 100 * (mtime - mtimes.minMtime) < 2 ^ 64 := by omega
  have quotient := quotient_le le
  rw [Mtimes.age, ageBetween, Nat.mod_eq_of_lt scaled]
  split
  · rfl
  · generalize 100 * (mtime - mtimes.minMtime) / (mtimes.maxMtime - mtimes.minMtime) = quotient
      at quotient
    omega

namespace CostInputs

variable {segno : Nat}

theorem age_le (inputs : CostInputs sbi state segno) (mtimes : Mtimes) :
    (getCbCost sbi state mtimes segno).2.age (sectionMtime sbi state segno) ≤ 100 := by
  have le : sectionMtime sbi state segno ≤ (getCbCost sbi state mtimes segno).2.maxMtime :=
    Nat.le_max_right _ _
  rw [age_eq inputs.sectionMtime_lt le, ageBetween]
  split
  · exact Nat.zero_le _
  · exact Nat.sub_le _ _

theorem utilization_le (inputs : CostInputs sbi state segno) :
    utilization sbi state segno ≤ 100 :=
  inputs.utilization_eq.trans_le inputs.percent_div_le

/-- The cost without machine arithmetic. -/
theorem cost_eq (inputs : CostInputs sbi state segno) (mtimes : Mtimes) :
    (getCbCost sbi state mtimes segno).1 = uintMax - benefit (utilization sbi state segno)
      (ageBetween (getCbCost sbi state mtimes segno).2 (sectionMtime sbi state segno)) := by
  have le : sectionMtime sbi state segno ≤ (getCbCost sbi state mtimes segno).2.maxMtime :=
    Nat.le_max_right _ _
  have age := age_eq inputs.sectionMtime_lt le
  have age_le := inputs.age_le mtimes
  have small := benefit_le (u := utilization sbi state segno) age_le
  rw [← age]
  have exact_benefit : Int.tdiv (100 * (100 - (utilization sbi state segno : Int)) *
      ((getCbCost sbi state mtimes segno).2.age (sectionMtime sbi state segno) : Int))
        (100 + (utilization sbi state segno : Int)) =
      (benefit (utilization sbi state segno)
        ((getCbCost sbi state mtimes segno).2.age (sectionMtime sbi state segno)) : Int) := by
    rw [benefit, Int.natCast_div, ← Int.tdiv_eq_ediv_of_nonneg (by positivity)]
    push_cast [Nat.cast_sub inputs.utilization_le]
    rfl
  have max : uintMax = 4294967295 := rfl
  show ((uintMax : Int) - Int.tdiv (100 * (100 - (utilization sbi state segno : Int)) *
    ((getCbCost sbi state mtimes segno).2.age (sectionMtime sbi state segno) : Int))
      (100 + (utilization sbi state segno : Int))).toNat % 2 ^ 32 = _
  rw [exact_benefit]
  omega

theorem sound (inputs : CostInputs sbi state segno) (mtimes : Mtimes) :
    CostSound sbi state mtimes segno where
  sum := inputs.sum
  divisors := ⟨sbi.segsPerSec_pos.ne', by omega⟩
  percent := inputs.percent_lt
  utilization_le := inputs.utilization_le
  scaled := by
    have bounded := inputs.sectionMtime_lt
    omega
  quotient_le := quotient_le (Nat.le_max_right _ _)
  age_le := inputs.age_le mtimes
  cost_ge := by
    have age := inputs.age_le mtimes
    rw [age_eq inputs.sectionMtime_lt (Nat.le_max_right _ _)] at age
    rw [inputs.cost_eq mtimes]
    exact Nat.sub_le_sub_left (benefit_le age) _
  min_le := Nat.min_le_left _ _
  min_le_mtime := Nat.min_le_right _ _
  mtime_le_max := Nat.le_max_right _ _

end CostInputs

/-- `get_cb_cost` is exact, and of two sections with the same bounds on the modification times the
one with no more valid blocks and no later time is not dearer. -/
theorem getCbCost_sound (mtimes other : Mtimes) {segno next : Nat}
    (inputs : CostInputs sbi state segno) (inputs_next : CostInputs sbi state next) :
    CostSound sbi state mtimes segno ∧
      ((getCbCost sbi state mtimes segno).2 = (getCbCost sbi state other next).2 →
        getValidBlocks sbi state segno sbi.segsPerSec ≤
          getValidBlocks sbi state next sbi.segsPerSec →
        sectionMtime sbi state segno ≤ sectionMtime sbi state next →
        (getCbCost sbi state mtimes segno).1 ≤ (getCbCost sbi state other next).1) := by
  refine ⟨inputs.sound mtimes, fun bounds fewer older => ?_⟩
  rw [inputs.cost_eq, inputs_next.cost_eq, ← bounds]
  apply Nat.sub_le_sub_left
  apply benefit_anti _ (ageBetween_anti _ older)
  rw [inputs.utilization_eq, inputs_next.utilization_eq]
  exact Nat.div_le_div_right (Nat.mul_le_mul_right _ (Nat.div_le_div_right fewer))

/-- The small volume with every segment modified at one time. -/
def modifiedAt (mtime : Nat) : State :=
  { unbuilt smallImage with
    sit := { buildSitInfo smallImage with sentries := fun _ => { SegEntry.zero with mtime } } }

theorem costInputs_modifiedAt {mtime : Nat} (below : mtime < 2 ^ 57) (segno : Nat) :
    CostInputs smallVolume (modifiedAt mtime) segno := by
  have times : ∀ index < smallVolume.segsPerSec,
      segmentMtime smallVolume (modifiedAt mtime) segno index < 2 ^ 57 := fun _ _ => below
  exact ⟨times, sum_lt_of_few (by decide) times, Nat.zero_le _⟩

theorem getCbCost_sound_small :
    CostSound smallVolume (modifiedAt 5) ⟨7, 3⟩ 0 ∧
      (getCbCost smallVolume (modifiedAt 5) ⟨7, 3⟩ 0).1 ≤
        (getCbCost smallVolume (modifiedAt 5) ⟨5, 5⟩ 1).1 := by
  obtain ⟨sound, mono⟩ := getCbCost_sound ⟨7, 3⟩ ⟨5, 5⟩
    (costInputs_modifiedAt (show 5 < 2 ^ 57 by norm_num) 0)
    (costInputs_modifiedAt (show 5 < 2 ^ 57 by norm_num) 1)
  exact ⟨sound, mono (by decide) (by decide) (by decide)⟩

/-- A volume with one section of 129 segments. -/
def wideVolume : Sbi :=
  { smallVolume with
    segsPerSec := 129
    totalSections := 1
    mainSegments := 129
    segsPerSec_pos := by decide
    main_eq := rfl
    addresses_fit := by decide }

/-- The times of 129 segments, all below `2 ^ 57`, leave 64 bits when they are summed, and the mean
is below all of them. -/
theorem getCbCost_wraps :
    (∀ index < wideVolume.segsPerSec,
      segmentMtime wideVolume (modifiedAt (2 ^ 57 - 1)) 0 index = 2 ^ 57 - 1) ∧
    getValidBlocks wideVolume (modifiedAt (2 ^ 57 - 1)) 0 wideVolume.segsPerSec = 0 ∧
    sectionMtime wideVolume (modifiedAt (2 ^ 57 - 1)) 0 < 2 ^ 50 ∧
    ∀ mtimes, ¬ CostSound wideVolume (modifiedAt (2 ^ 57 - 1)) mtimes 0 := by
  have total : ∑ index ∈ Finset.range wideVolume.segsPerSec,
      segmentMtime wideVolume (modifiedAt (2 ^ 57 - 1)) 0 index = 129 * (2 ^ 57 - 1) := by
    have each : ∀ index ∈ Finset.range wideVolume.segsPerSec,
        segmentMtime wideVolume (modifiedAt (2 ^ 57 - 1)) 0 index = 2 ^ 57 - 1 := fun _ _ => rfl
    rw [Finset.sum_congr rfl each, Finset.sum_const, Finset.card_range]
    rfl
  refine ⟨fun _ _ => rfl, rfl, ?_, fun mtimes sound => ?_⟩
  · simp only [segmentMtime] at total
    rw [sectionMtime, total]
    norm_num [wideVolume]
  · have sum := sound.sum
    rw [total] at sum
    exact absurd sum (by norm_num)

end VictimSelection
end F2fs
end StorageStack
