import Mathlib
import StorageStack.F2fs.Directory

/-!
# The buckets of a directory

The levels of a directory follow one another in its file, each divided into buckets of equal
length.  Up to level 31 no bucket meets another.  From there on a level takes `2 ^ 30` buckets of
four blocks, and the unsigned 32-bit product of the two is zero, so that all these levels start at
one block.
-/

namespace StorageStack.F2fs

/-- The blocks of a bucket. -/
def bucketRange (level dirLevel bucket : Nat) : Set Nat :=
  Set.Ico (dirBlockIndex level dirLevel bucket)
    (dirBlockIndex level dirLevel bucket + bucketBlocks level)

/-- No product of `dir_block_index` leaves 32 bits, and no sum 64. -/
structure IndexFits (level dirLevel bucket : Nat) : Prop where
  levels : ∀ below < level, dirBuckets below dirLevel * bucketBlocks below < 2 ^ 32
  offset : bucket * bucketBlocks level < 2 ^ 32
  sum : dirBlockIndex level dirLevel bucket + bucketBlocks level < 2 ^ 64

theorem bucketBlocks_low {level : Nat} (low : level < 31) : bucketBlocks level = 2 := by
  rw [bucketBlocks, maxDirHashDepth_half, if_pos low]

theorem bucketBlocks_high {level : Nat} (high : 31 ≤ level) : bucketBlocks level = 4 := by
  rw [bucketBlocks, maxDirHashDepth_half, if_neg (Nat.not_lt.2 high)]

theorem dirBuckets_high {level : Nat} (dirLevel : Nat) (high : 31 ≤ level) :
    dirBuckets level dirLevel = 2 ^ 30 := by
  rw [dirBuckets, maxDirHashDepth_half, if_neg (by omega)]
  rfl

/-! ## The starts of the levels -/

/-- Below level 31 the product is exact. -/
theorem levelStart_succ_low {level : Nat} (dirLevel : Nat) (low : level < 31) :
    levelStart dirLevel (level + 1) =
      levelStart dirLevel level + dirBuckets level dirLevel * 2 := by
  have few := dirBuckets_le level dirLevel
  rw [levelStart, bucketBlocks_low low, Nat.mod_eq_of_lt]
  omega

/-- From level 31 on it is zero. -/
theorem levelStart_high {level : Nat} (dirLevel : Nat) (high : 31 ≤ level) :
    levelStart dirLevel level = levelStart dirLevel 31 := by
  induction level, high using Nat.le_induction with
  | base => rfl
  | succ level high ih =>
      have wraps : 2 ^ 30 * 4 % 2 ^ 32 = 0 := by norm_num
      rw [levelStart, dirBuckets_high dirLevel high, bucketBlocks_high high, ih, wraps,
        Nat.add_zero]

theorem levelStart_le (dirLevel level : Nat) : levelStart dirLevel level ≤ level * 2 ^ 31 := by
  induction level with
  | zero => exact Nat.le_refl _
  | succ level ih =>
      rcases Nat.lt_or_ge level 31 with low | high
      · have few := dirBuckets_le level dirLevel
        rw [levelStart_succ_low dirLevel low]
        omega
      · have same : levelStart dirLevel (level + 1) = levelStart dirLevel level :=
          (levelStart_high dirLevel (Nat.le_succ_of_le high)).trans
            (levelStart_high dirLevel high).symm
        rw [same]
        exact ih.trans (Nat.mul_le_mul_right _ (Nat.le_succ level))

/-! ## The buckets of one level -/

/-- The offset of a bucket in its level always fits. -/
theorem bucket_offset_lt {level dirLevel bucket : Nat} (inLevel : bucket < dirBuckets level dirLevel) :
    bucket * bucketBlocks level < 2 ^ 32 := by
  have few := dirBuckets_le level dirLevel
  have blocks : bucketBlocks level ≤ 4 := by
    rw [bucketBlocks]
    split <;> decide
  calc
    bucket * bucketBlocks level ≤ bucket * 4 := Nat.mul_le_mul_left _ blocks
    _ < 2 ^ 32 := by omega

theorem dirBlockIndex_eq {level dirLevel bucket : Nat}
    (inLevel : bucket < dirBuckets level dirLevel) :
    dirBlockIndex level dirLevel bucket =
      levelStart dirLevel level + bucket * bucketBlocks level := by
  rw [dirBlockIndex, Nat.mod_eq_of_lt (bucket_offset_lt inLevel)]

/-- A bucket of a level below 31 ends before the next level starts. -/
theorem bucket_end_le {level dirLevel bucket : Nat} (low : level < 31)
    (inLevel : bucket < dirBuckets level dirLevel) :
    dirBlockIndex level dirLevel bucket + bucketBlocks level ≤ levelStart dirLevel (level + 1) := by
  rw [dirBlockIndex_eq inLevel, levelStart_succ_low dirLevel low, bucketBlocks_low low]
  omega

theorem levelStart_le_index (level dirLevel bucket : Nat) :
    levelStart dirLevel level ≤ dirBlockIndex level dirLevel bucket :=
  Nat.le_add_right _ _

/-- A bucket of a level below 31 comes before every bucket of a later level. -/
theorem disjoint_of_lt {level later dirLevel bucket : Nat} (other : Nat) (low : level < 31)
    (before : level < later) (inLevel : bucket < dirBuckets level dirLevel) :
    Disjoint (bucketRange level dirLevel bucket) (bucketRange later dirLevel other) := by
  rw [Set.disjoint_left]
  rintro block ⟨_, ends⟩ ⟨starts, _⟩
  apply Nat.not_le.2 ends
  calc
    dirBlockIndex level dirLevel bucket + bucketBlocks level
        ≤ levelStart dirLevel (level + 1) := bucket_end_le low inLevel
    _ ≤ levelStart dirLevel later := levelStart_mono dirLevel before
    _ ≤ dirBlockIndex later dirLevel other := levelStart_le_index _ _ _
    _ ≤ block := starts

/-- Two runs of one length, at multiples of it from one start, meet only when they are the same. -/
theorem disjoint_multiples {start length left right : Nat} (differ : left ≠ right) :
    Disjoint (Set.Ico (start + left * length) (start + left * length + length))
      (Set.Ico (start + right * length) (start + right * length + length)) := by
  have apart : ∀ {low high : Nat}, low < high →
      start + low * length + length ≤ start + high * length := by
    intro low high before
    have le := Nat.mul_le_mul_right length (Nat.succ_le_of_lt before)
    rw [Nat.succ_mul] at le
    omega
  rw [Set.Ico_disjoint_Ico]
  rcases Nat.lt_or_gt_of_ne differ with before | after
  · exact (min_le_left _ _).trans ((apart before).trans (le_max_right _ _))
  · exact (min_le_right _ _).trans ((apart after).trans (le_max_left _ _))

/-- Where the levels of two buckets start together and their buckets have one length, the buckets
meet exactly when they have one number. -/
theorem disjoint_iff_of_same_start {level other dirLevel bucket next : Nat}
    (starts : levelStart dirLevel level = levelStart dirLevel other)
    (blocks : bucketBlocks level = bucketBlocks other)
    (inLevel : bucket < dirBuckets level dirLevel) (inOther : next < dirBuckets other dirLevel) :
    Disjoint (bucketRange level dirLevel bucket) (bucketRange other dirLevel next) ↔
      bucket ≠ next := by
  rw [bucketRange, bucketRange, dirBlockIndex_eq inLevel, dirBlockIndex_eq inOther, starts, blocks]
  constructor
  · rintro apart rfl
    rw [disjoint_self, Set.bot_eq_empty, Set.Ico_eq_empty_iff] at apart
    have pos := bucketBlocks_pos other
    omega
  · exact disjoint_multiples

/-! ## The bound on the levels -/

theorem indexFits_iff {level dirLevel bucket : Nat}
    (inLevel : bucket < dirBuckets level dirLevel) :
    IndexFits level dirLevel bucket ↔ level ≤ 31 := by
  constructor
  · intro fits
    by_contra high
    have wraps := fits.levels 31 (by omega)
    rw [dirBuckets_high dirLevel (Nat.le_refl 31), bucketBlocks_high (Nat.le_refl 31)] at wraps
    exact absurd wraps (by decide)
  · intro low
    refine ⟨fun below before => ?_, bucket_offset_lt inLevel, ?_⟩
    · have few := dirBuckets_le below dirLevel
      rw [bucketBlocks_low (Nat.lt_of_lt_of_le before low)]
      omega
    · have start := levelStart_le dirLevel level
      have offset := bucket_offset_lt inLevel
      have blocks : bucketBlocks level ≤ 4 := by
        rw [bucketBlocks]
        split <;> decide
      rw [dirBlockIndex_eq inLevel]
      omega

/-- Two buckets of a directory share no block exactly when they are not buckets of one number on
two levels from 31 on; the arithmetic of `dir_block_index` is exact up to level 31 only. -/
theorem buckets_disjoint_iff (dirLevel : Nat) {level other bucket next : Nat}
    (inLevel : bucket < dirBuckets level dirLevel) (inOther : next < dirBuckets other dirLevel)
    (differ : (level, bucket) ≠ (other, next)) :
    (Disjoint (bucketRange level dirLevel bucket) (bucketRange other dirLevel next) ↔
      ¬ (31 ≤ level ∧ 31 ≤ other ∧ bucket = next)) ∧
    (IndexFits level dirLevel bucket ∧ IndexFits other dirLevel next ↔
      level ≤ 31 ∧ other ≤ 31) := by
  refine ⟨?_, and_congr (indexFits_iff inLevel) (indexFits_iff inOther)⟩
  rcases Nat.lt_trichotomy level other with before | same | after
  · rcases Nat.lt_or_ge level 31 with low | high
    · have apart := disjoint_of_lt next low before inLevel
      exact iff_of_true apart fun both => absurd both.1 (Nat.not_le.2 low)
    · have high_other : 31 ≤ other := by omega
      rw [disjoint_iff_of_same_start
        ((levelStart_high dirLevel high).trans (levelStart_high dirLevel high_other).symm)
        ((bucketBlocks_high high).trans (bucketBlocks_high high_other).symm) inLevel inOther]
      simp [high, high_other]
  · subst same
    have numbers : bucket ≠ next := fun same => differ (by rw [same])
    rw [disjoint_iff_of_same_start rfl rfl inLevel inOther]
    exact iff_of_true numbers fun both => numbers both.2.2
  · rcases Nat.lt_or_ge other 31 with low | high
    · have apart := (disjoint_of_lt bucket low after inOther).symm
      exact iff_of_true apart fun both => absurd both.2.1 (Nat.not_le.2 low)
    · have high_level : 31 ≤ level := by omega
      rw [disjoint_iff_of_same_start
        ((levelStart_high dirLevel high_level).trans (levelStart_high dirLevel high).symm)
        ((bucketBlocks_high high_level).trans (bucketBlocks_high high).symm) inLevel inOther]
      simp [high, high_level]

theorem buckets_disjoint_low :
    Disjoint (bucketRange 0 0 0) (bucketRange 1 0 1) :=
  ((buckets_disjoint_iff 0 (by decide) (by decide) (by decide)).1).2
    (by decide)

/-- Bucket 0 of level 31 and bucket 0 of level 32 are the same four blocks. -/
theorem buckets_meet :
    31 < maxDirHashDepth ∧ 32 < maxDirHashDepth ∧ 0 < dirBuckets 31 0 ∧ 0 < dirBuckets 32 0 ∧
      ¬ Disjoint (bucketRange 31 0 0) (bucketRange 32 0 0) := by
  refine ⟨by decide, by decide, by decide, by decide, fun apart => ?_⟩
  have starts : levelStart 0 31 = levelStart 0 32 := (levelStart_high 0 (by decide)).symm
  exact (disjoint_iff_of_same_start starts rfl (by decide) (by decide)).1 apart rfl

end StorageStack.F2fs
