import Mathlib.Data.Nat.Count
import Mathlib.Tactic

/-!
# Bit maps

A bit map of any length is a function from bit numbers to Booleans; the length is an argument of the
operations that depend on it.  The file provides the population count and the two searches for the
next set or clear bit, with the lemmas a program over bit maps needs: what one update does to the
count, and what the searches find.
-/

namespace StorageStack

/-- A bit map. -/
abbrev BitMap := Nat → Bool

namespace BitMap

/-- The map without set bits. -/
def empty : BitMap := fun _ => false

/-- Set one bit. -/
def set (map : BitMap) (bit : Nat) : BitMap := Function.update map bit true

/-- Clear one bit. -/
def clear (map : BitMap) (bit : Nat) : BitMap := Function.update map bit false

/-- The bits set in either map. -/
def union (left right : BitMap) : BitMap := fun bit => left bit || right bit

@[simp] theorem empty_apply (bit : Nat) : empty bit = false := rfl

@[simp] theorem union_apply (left right : BitMap) (bit : Nat) :
    union left right bit = (left bit || right bit) := rfl

@[simp] theorem set_self (map : BitMap) (bit : Nat) : map.set bit bit = true := by simp [set]

@[simp] theorem clear_self (map : BitMap) (bit : Nat) : map.clear bit bit = false := by
  simp [clear]

theorem set_of_ne {map : BitMap} {bit other : Nat} (ne : other ≠ bit) :
    map.set bit other = map other := by
  simp [set, ne]

theorem clear_of_ne {map : BitMap} {bit other : Nat} (ne : other ≠ bit) :
    map.clear bit other = map other := by
  simp [clear, ne]

theorem set_apply (map : BitMap) (bit other : Nat) :
    map.set bit other = if other = bit then true else map other := by
  simp [set, Function.update_apply]

theorem clear_apply (map : BitMap) (bit other : Nat) :
    map.clear bit other = if other = bit then false else map other := by
  simp [clear, Function.update_apply]

/-! ## Population count -/

/-- The number of set bits below `size`. -/
def popCount (map : BitMap) (size : Nat) : Nat := Nat.count (fun bit => map bit = true) size

theorem popCount_succ (map : BitMap) (size : Nat) :
    map.popCount (size + 1) = map.popCount size + if map size = true then 1 else 0 :=
  Nat.count_succ _ _

theorem popCount_le (map : BitMap) (size : Nat) : map.popCount size ≤ size := Nat.count_le _

theorem popCount_congr {left right : BitMap} {size : Nat}
    (agree : ∀ bit < size, left bit = right bit) : left.popCount size = right.popCount size := by
  apply Nat.le_antisymm
  · exact Nat.count_mono_left fun bit small set => (agree bit small) ▸ set
  · exact Nat.count_mono_left fun bit small set => (agree bit small).symm ▸ set

theorem popCount_eq_zero_iff {map : BitMap} {size : Nat} :
    map.popCount size = 0 ↔ ∀ bit < size, map bit = false := by
  simp [popCount, Nat.count_iff_forall_not]

theorem popCount_pos_iff {map : BitMap} {size : Nat} :
    0 < map.popCount size ↔ ∃ bit < size, map bit = true := by
  rw [Nat.pos_iff_ne_zero, popCount, Nat.count_ne_iff_exists]

theorem popCount_eq_size_iff {map : BitMap} {size : Nat} :
    map.popCount size = size ↔ ∀ bit < size, map bit = true := by
  simp [popCount, Nat.count_iff_forall]

theorem popCount_lt_iff {map : BitMap} {size : Nat} :
    map.popCount size < size ↔ ∃ bit < size, map bit = false := by
  have bound := popCount_le map size
  rw [Nat.lt_iff_le_and_ne, Ne, popCount_eq_size_iff]
  simp [bound]

@[simp] theorem popCount_empty (size : Nat) : empty.popCount size = 0 :=
  popCount_eq_zero_iff.mpr fun _ _ => rfl

/-- Setting a clear bit adds one to the count. -/
theorem popCount_set {map : BitMap} {size bit : Nat} (small : bit < size)
    (unset : map bit = false) : (map.set bit).popCount size = map.popCount size + 1 := by
  induction size with
  | zero => omega
  | succ size ih =>
      rw [popCount_succ, popCount_succ]
      by_cases last : bit = size
      · subst last
        have below : (map.set bit).popCount bit = map.popCount bit :=
          popCount_congr fun other less => set_of_ne (by omega)
        simp [below, unset]
      · rw [ih (by omega), set_of_ne (Ne.symm last)]
        omega

/-- Clearing a set bit takes one off the count. -/
theorem popCount_clear {map : BitMap} {size bit : Nat} (small : bit < size)
    (isSet : map bit = true) : (map.clear bit).popCount size + 1 = map.popCount size := by
  have restored : (map.clear bit).set bit = map := by
    funext other
    by_cases same : other = bit
    · subst same
      simp [isSet]
    · rw [set_of_ne same, clear_of_ne same]
  rw [← popCount_set small (clear_self map bit), restored]

/-! ## Searches -/

/-- The first of `rounds` bits from `bit` on with value `want`, else the bit after them. -/
def scan (want : Bool) (map : BitMap) : Nat → Nat → Nat
  | 0, bit => bit
  | rounds + 1, bit => if map bit = want then bit else scan want map rounds (bit + 1)

/-- The first bit from `offset` on and below `size` with value `want`, else `size`. -/
def findNext (want : Bool) (map : BitMap) (size offset : Nat) : Nat :=
  if size ≤ offset then size else scan want map (size - offset) offset

/-- `find_next_bit`. -/
def findNextBit (map : BitMap) (size offset : Nat) : Nat := findNext true map size offset

/-- `find_next_zero_bit`. -/
def findNextZeroBit (map : BitMap) (size offset : Nat) : Nat := findNext false map size offset

theorem scan_spec (want : Bool) (map : BitMap) (rounds start : Nat) :
    start ≤ scan want map rounds start ∧ scan want map rounds start ≤ start + rounds ∧
      (scan want map rounds start < start + rounds →
        map (scan want map rounds start) = want) ∧
      ∀ bit, start ≤ bit → bit < scan want map rounds start → map bit ≠ want := by
  induction rounds generalizing start with
  | zero =>
      refine ⟨le_refl _, le_refl _, fun less => absurd less (lt_irrefl _), fun bit _ before => ?_⟩
      simp only [scan] at before
      omega
  | succ rounds ih =>
      by_cases found : map start = want
      · simp only [scan, found, if_true]
        exact ⟨le_refl _, by omega, fun _ => trivial, fun bit _ _ => by omega⟩
      · obtain ⟨after, within, wanted, skipped⟩ := ih (start + 1)
        simp only [scan, found, if_false]
        refine ⟨by omega, by omega, fun inside => wanted (by omega), fun bit from_start before => ?_⟩
        by_cases first : bit = start
        · exact first ▸ found
        · exact skipped bit (by omega) before

theorem findNext_le (want : Bool) (map : BitMap) (size offset : Nat) :
    findNext want map size offset ≤ size := by
  unfold findNext
  split
  · exact le_refl _
  · have within := (scan_spec want map (size - offset) offset).2.1
    omega

theorem le_findNext {want : Bool} {map : BitMap} {size offset : Nat} (inside : offset ≤ size) :
    offset ≤ findNext want map size offset := by
  unfold findNext
  split
  · exact inside
  · exact (scan_spec want map (size - offset) offset).1

theorem findNext_found {want : Bool} {map : BitMap} {size offset : Nat}
    (found : findNext want map size offset < size) :
    map (findNext want map size offset) = want := by
  unfold findNext at found ⊢
  split at found
  · omega
  · next inside =>
      rw [if_neg inside]
      exact (scan_spec want map (size - offset) offset).2.2.1 (by omega)

theorem findNextZeroBit_found {map : BitMap} {size offset : Nat}
    (found : map.findNextZeroBit size offset < size) :
    map (map.findNextZeroBit size offset) = false :=
  findNext_found found

theorem findNext_skipped {want : Bool} {map : BitMap} {size offset bit : Nat}
    (from_offset : offset ≤ bit) (before : bit < findNext want map size offset) :
    map bit ≠ want := by
  have bound := findNext_le want map size offset
  unfold findNext at before
  split at before
  · omega
  · exact (scan_spec want map (size - offset) offset).2.2.2 bit from_offset before

theorem findNext_lt_iff {want : Bool} {map : BitMap} {size offset : Nat} :
    findNext want map size offset < size ↔ ∃ bit, offset ≤ bit ∧ bit < size ∧ map bit = want := by
  constructor
  · intro found
    refine ⟨findNext want map size offset, ?_, found, findNext_found found⟩
    by_cases inside : offset ≤ size
    · exact le_findNext inside
    · simp only [findNext, if_pos (show size ≤ offset by omega)] at found
      omega
  · rintro ⟨bit, from_offset, small, wanted⟩
    by_contra missed
    have before : bit < findNext want map size offset := by omega
    exact findNext_skipped from_offset before wanted

/-- The set bits below `size`, in increasing order. -/
def setBits (map : BitMap) (size : Nat) : List Nat := (List.range size).filter fun bit => map bit

@[simp] theorem mem_setBits {map : BitMap} {size bit : Nat} :
    bit ∈ map.setBits size ↔ bit < size ∧ map bit = true := by
  simp [setBits]

theorem nodup_setBits (map : BitMap) (size : Nat) : (map.setBits size).Nodup :=
  List.nodup_range.filter _

theorem length_setBits (map : BitMap) (size : Nat) :
    (map.setBits size).length = map.popCount size := by
  rw [setBits, popCount, Nat.count, List.countP_eq_length_filter]
  simp

theorem le_findNext_of_found {want : Bool} {map : BitMap} {size offset : Nat}
    (found : findNext want map size offset < size) : offset ≤ findNext want map size offset := by
  apply le_findNext
  by_contra outside
  rw [findNext, if_pos (by omega)] at found
  omega

/-- The maximal runs of set bits from `offset` on, as pairs of first bit and bit after the last. -/
def runs (map : BitMap) (size offset : Nat) : List (Nat × Nat) :=
  if _found : map.findNextBit size offset < size then
    (map.findNextBit size offset, map.findNextZeroBit size (map.findNextBit size offset + 1)) ::
      runs map size (map.findNextZeroBit size (map.findNextBit size offset + 1) + 1)
  else []
termination_by size - offset
decreasing_by
  have inside : offset ≤ map.findNextBit size offset := le_findNext_of_found _found
  have after : map.findNextBit size offset + 1 ≤
      map.findNextZeroBit size (map.findNextBit size offset + 1) := le_findNext _found
  omega

theorem popCount_add_of_clear {map : BitMap} {low high : Nat} (ordered : low ≤ high)
    (unset : ∀ bit, low ≤ bit → bit < high → map bit = false) :
    map.popCount high = map.popCount low := by
  induction high, ordered using Nat.le_induction with
  | base => rfl
  | succ high above ih =>
      rw [popCount_succ, ih fun bit lower upper => unset bit lower (by omega)]
      simp [unset high above (by omega)]

theorem popCount_add_of_set {map : BitMap} {low high : Nat} (ordered : low ≤ high)
    (isSet : ∀ bit, low ≤ bit → bit < high → map bit = true) :
    map.popCount high = map.popCount low + (high - low) := by
  induction high, ordered using Nat.le_induction with
  | base => simp
  | succ high above ih =>
      rw [popCount_succ, ih fun bit lower upper => isSet bit lower (by omega)]
      simp only [isSet high above (by omega), if_true]
      omega

/-- The lengths of the runs from `offset` on add up to the set bits from there on. -/
theorem sum_runs (map : BitMap) (size offset : Nat) (inside : offset ≤ size) :
    map.popCount offset + ((map.runs size offset).map fun run => run.2 - run.1).sum =
      map.popCount size := by
  induction offset using runs.induct map size with
  | case1 offset found ih =>
      have lower : offset ≤ map.findNextBit size offset := le_findNext inside
      have after : map.findNextBit size offset + 1 ≤
          map.findNextZeroBit size (map.findNextBit size offset + 1) := le_findNext found
      have unset : map.popCount (map.findNextBit size offset) = map.popCount offset :=
        popCount_add_of_clear lower fun bit above below => by
          simpa using findNext_skipped above below
      have isSet := popCount_add_of_set (Nat.le_of_succ_le after) fun bit above below => by
        by_cases first : bit = map.findNextBit size offset
        · rw [first]
          exact findNext_found found
        · have skipped := findNext_skipped (show map.findNextBit size offset + 1 ≤ bit by omega) below
          simpa using skipped
      rw [runs, dif_pos found]
      simp only [List.map_cons, List.sum_cons]
      by_cases ends : map.findNextZeroBit size (map.findNextBit size offset + 1) < size
      · have clear := findNextZeroBit_found ends
        have past := ih ends
        rw [popCount_succ] at past
        simp only [clear] at past
        simp at past
        omega
      · have bound : map.findNextZeroBit size (map.findNextBit size offset + 1) ≤ size :=
          findNext_le _ _ _ _
        have last : map.findNextZeroBit size (map.findNextBit size offset + 1) = size := by omega
        have beyond : ¬ map.findNextBit size (size + 1) < size := by
          simp [findNextBit, findNext]
        rw [last] at isSet ⊢
        rw [runs, dif_neg beyond]
        simp
        omega
  | case2 offset missed =>
      have none_set : map.popCount size = map.popCount offset :=
        popCount_add_of_clear inside fun bit above below => by
          by_contra isSet
          exact missed (findNext_lt_iff.mpr ⟨bit, above, below, by simpa using isSet⟩)
      rw [runs, dif_neg missed]
      simp [none_set]

theorem foldl_clear_setBits (map : BitMap) (size bit : Nat) :
    (map.setBits size).foldl clear map bit = if bit < size then false else map bit := by
  have general : ∀ (bits : List Nat) (start : BitMap),
      bits.foldl clear start bit = if bit ∈ bits then false else start bit := by
    intro bits
    induction bits with
    | nil => simp
    | cons first bits ih =>
        intro start
        rw [List.foldl_cons, ih, clear_apply]
        by_cases same : bit = first
        · simp [same]
        · simp [same]
  rw [general]
  cases isSet : map bit <;> simp [isSet]

theorem foldl_set (bits : List Nat) (map : BitMap) (bit : Nat) :
    bits.foldl set map bit = if bit ∈ bits then true else map bit := by
  induction bits generalizing map with
  | nil => simp
  | cons first bits ih =>
      rw [List.foldl_cons, ih, set_apply]
      by_cases same : bit = first
      · simp [same]
      · simp [same]

theorem foldl_set_setBits (map : BitMap) (size bit : Nat) :
    (map.setBits size).foldl set .empty bit = if bit < size then map bit else false := by
  rw [foldl_set]
  cases isSet : map bit <;> simp [isSet]

end BitMap
end StorageStack
