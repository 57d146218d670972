import Mathlib.Tactic

/-!
# Slots of a ring in order

A ring has `size` slots.  A place is a natural number which counts on when the ring is passed, and
stands for the slot of its remainder: the slots from one place up to another are then listed without
a distinction between the two ends of the ring.  Of the slots some are kept, and the file is about
the places up to which a given number of kept slots has been seen.
-/

namespace StorageStack
namespace RingOrder

variable {size place count : Nat} {keep other : Nat → Bool}

/-- The slot behind `slot`. -/
def next (size slot : Nat) : Nat := if slot + 1 = size then 0 else slot + 1

theorem next_mod (positive : 0 < size) (place : Nat) :
    next size (place % size) = (place + 1) % size := by
  have small := Nat.mod_lt place positive
  rw [← Nat.mod_add_mod, next]
  split_ifs with last
  · rw [last, Nat.mod_self]
  · exact (Nat.mod_eq_of_lt (by omega)).symm

/-- The kept slots of `count` places. -/
def kept (keep : Nat → Bool) (size place count : Nat) : List Nat :=
  ((List.range' place count).map (· % size)).filter keep

@[simp] theorem kept_zero : kept keep size place 0 = [] := rfl

theorem kept_succ :
    kept keep size place (count + 1) =
      if keep (place % size) then place % size :: kept keep size (place + 1) count
      else kept keep size (place + 1) count := by
  rw [kept, List.range'_succ, List.map_cons, List.filter_cons]
  rfl

theorem kept_add (first second : Nat) :
    kept keep size place (first + second) =
      kept keep size place first ++ kept keep size (place + first) second := by
  rw [kept, kept, kept, ← List.range'_append_1, List.map_append, List.filter_append]

theorem mem_kept {slot : Nat} :
    slot ∈ kept keep size place count ↔
      keep slot = true ∧ ∃ offset < count, (place + offset) % size = slot := by
  simp only [kept, List.mem_filter, List.mem_map, List.mem_range'_1]
  constructor
  · rintro ⟨⟨at_place, ⟨le, lt⟩, rfl⟩, isKept⟩
    exact ⟨isKept, at_place - place, by omega, by rw [Nat.add_sub_cancel' le]⟩
  · rintro ⟨isKept, offset, offset_lt, rfl⟩
    exact ⟨⟨place + offset, by omega, rfl⟩, isKept⟩

theorem kept_congr (agree : ∀ offset < count,
    keep ((place + offset) % size) = other ((place + offset) % size)) :
    kept keep size place count = kept other size place count := by
  apply List.filter_congr
  intro slot member
  obtain ⟨at_place, inside, rfl⟩ := List.mem_map.mp member
  have bounds := List.mem_range'_1.mp inside
  have same := agree (at_place - place) (by omega)
  rwa [Nat.add_sub_cancel' bounds.1] at same

theorem length_kept_mono {more : Nat} (le : count ≤ more) :
    (kept keep size place count).length ≤ (kept keep size place more).length := by
  obtain ⟨rest, rfl⟩ := Nat.exists_eq_add_of_le le
  rw [kept_add, List.length_append]
  exact Nat.le_add_right _ _

/-- Two places of one round are different slots. -/
theorem mod_ne_mod {low high : Nat} (lt : low < high) (near : high < low + size) :
    low % size ≠ high % size := by
  intro same
  have divides : size ∣ high - low := (Nat.modEq_iff_dvd' lt.le).mp same
  exact absurd (Nat.le_of_dvd (by omega) divides) (by omega)

/-- `count` is the first number of places with `found` kept slots. -/
def Reaches (keep : Nat → Bool) (size place found count : Nat) : Prop :=
  (kept keep size place count).length = found ∧
    ∀ fewer < count, (kept keep size place fewer).length < found

theorem exists_reaches {found most : Nat} (enough : found ≤ (kept keep size place most).length) :
    ∃ count ≤ most, Reaches keep size place found count := by
  classical
  have some_count : ∃ count, found ≤ (kept keep size place count).length := ⟨most, enough⟩
  refine ⟨Nat.find some_count, Nat.find_min' some_count enough, ?_, fun fewer lt =>
    not_le.mp (Nat.find_min some_count lt)⟩
  refine le_antisymm ?_ (Nat.find_spec some_count)
  rcases Nat.eq_zero_or_eq_succ_pred (Nat.find some_count) with zero | succ
  · rw [zero]
    exact Nat.zero_le _
  · have before := Nat.find_min some_count (Nat.pred_lt_self (by omega))
    rw [succ, Nat.succ_eq_add_one, kept_add, List.length_append, kept_succ]
    split_ifs <;> simp only [kept_zero, List.length_cons, List.length_nil] <;> omega

theorem Reaches.of_kept {found : Nat} (reaches : Reaches keep size place found (count + 1))
    (isKept : keep (place % size) = true) :
    ∃ rest, found = rest + 1 ∧ Reaches keep size (place + 1) rest count := by
  obtain ⟨length, least⟩ := reaches
  rw [kept_succ, if_pos isKept, List.length_cons] at length
  refine ⟨_, length.symm, rfl, fun fewer lt => ?_⟩
  have bound := least (fewer + 1) (by omega)
  rw [kept_succ, if_pos isKept, List.length_cons] at bound
  omega

theorem Reaches.of_skipped {found : Nat} (reaches : Reaches keep size place found (count + 1))
    (skipped : keep (place % size) = false) : Reaches keep size (place + 1) found count := by
  obtain ⟨length, least⟩ := reaches
  rw [kept_succ, if_neg (by simp [skipped])] at length
  refine ⟨length, fun fewer lt => ?_⟩
  have bound := least (fewer + 1) (by omega)
  rwa [kept_succ, if_neg (by simp [skipped])] at bound

/-- Behind the first kept slots come the places with the next ones. -/
theorem Reaches.following {found more most : Nat} (reaches : Reaches keep size place found count)
    (le : count ≤ most) (enough : found + more ≤ (kept keep size place most).length) :
    ∃ rest ≤ most - count, Reaches keep size (place + count) more rest ∧
      kept keep size (place + count) rest =
        ((kept keep size place most).take (found + more)).drop found := by
  obtain ⟨left, rfl⟩ := Nat.exists_eq_add_of_le le
  rw [kept_add, List.length_append, reaches.1] at enough
  obtain ⟨rest, rest_le, next⟩ := exists_reaches (Nat.le_of_add_le_add_left enough)
  refine ⟨rest, by omega, next, ?_⟩
  obtain ⟨behind, rfl⟩ := Nat.exists_eq_add_of_le rest_le
  have both : (kept keep size place count ++ kept keep size (place + count) rest).length =
      found + more := by rw [List.length_append, reaches.1, next.1]
  rw [kept_add, kept_add, ← List.append_assoc, List.take_left' both, List.drop_left' reaches.1]

end RingOrder
end StorageStack
