import Mathlib.Tactic

/-!
# Ring buffers with one spare slot

A queue of at most `size` elements is kept in the slots `0 .. size`, from the slot `front` up to but
not including the slot `rear`, with wrap-around.  At least one slot is always outside the queue,
which tells a full queue from an empty one.
-/

namespace StorageStack
namespace RingBuffer

variable {Element : Type*} {size front rear slot : Nat}

/-- The slot behind `slot`. -/
def advance (size slot : Nat) : Nat := if slot + 1 = size + 1 then 0 else slot + 1

/-- The number of elements in the queue. -/
def occupancy (size front rear : Nat) : Nat :=
  if front ≤ rear then rear - front else rear + (size + 1) - front

/-- The slot of the element at `position`. -/
def slotAt (size front position : Nat) : Nat :=
  if front + position ≤ size then front + position else front + position - (size + 1)

/-- The elements of the queue from the oldest to the newest. -/
def contents (size : Nat) (slots : Nat → Element) (front rear : Nat) : List Element :=
  (List.range (occupancy size front rear)).map fun position => slots (slotAt size front position)

theorem advance_le (slot_le : slot ≤ size) : advance size slot ≤ size := by
  unfold advance
  split <;> omega

@[simp] theorem length_contents (slots : Nat → Element) :
    (contents size slots front rear).length = occupancy size front rear := by
  simp [contents]

theorem occupancy_le (front : Nat) (rear_le : rear ≤ size) :
    occupancy size front rear ≤ size := by
  unfold occupancy
  split <;> omega

theorem occupancy_eq_zero (front_le : front ≤ size) :
    occupancy size front rear = 0 ↔ front = rear := by
  unfold occupancy
  split <;> omega

theorem slotAt_occupancy (front_le : front ≤ size) (rear_le : rear ≤ size) :
    slotAt size front (occupancy size front rear) = rear := by
  unfold slotAt occupancy
  split_ifs <;> omega

theorem slotAt_injective {left right : Nat} (left_le : left ≤ size) (right_le : right ≤ size)
    (equal : slotAt size front left = slotAt size front right) :
    left = right := by
  unfold slotAt at equal
  split_ifs at equal <;> omega

theorem occupancy_advance_rear (front_le : front ≤ size)
    (space : occupancy size front rear < size) :
    occupancy size front (advance size rear) = occupancy size front rear + 1 := by
  unfold occupancy advance at *
  split_ifs at * <;> omega

theorem occupancy_advance_front (front_le : front ≤ size) (rear_le : rear ≤ size)
    (nonempty : 0 < occupancy size front rear) :
    occupancy size front rear = occupancy size (advance size front) rear + 1 := by
  unfold occupancy advance at *
  split_ifs at * <;> omega

theorem slotAt_advance {position : Nat} (position_lt : position < size) :
    slotAt size (advance size front) position = slotAt size front (position + 1) := by
  unfold slotAt advance
  split_ifs <;> omega

/-- The slot in front of the queue is the last one that the queue can reach. -/
theorem slotAt_size : slotAt size (advance size slot) size = slot := by
  unfold slotAt advance
  split_ifs <;> omega

/-- A write outside the queue leaves its elements. -/
theorem contents_update_outside (slots : Nat → Element) (element : Element)
    (outside : ∀ position < occupancy size front rear, slotAt size front position ≠ slot) :
    contents size (Function.update slots slot element) front rear =
      contents size slots front rear := by
  apply List.map_congr_left
  intro position member
  exact Function.update_of_ne (outside position (List.mem_range.mp member)) _ _

/-- A write to the slot in front of the queue leaves its elements. -/
theorem contents_update_before (slots : Nat → Element) (element : Element) (rear_le : rear ≤ size) :
    contents size (Function.update slots slot element) (advance size slot) rear =
      contents size slots (advance size slot) rear := by
  apply contents_update_outside
  intro position position_lt equal
  have bound := occupancy_le (advance size slot) rear_le
  have last := slotAt_injective (by omega) (le_refl size)
    (equal.trans slotAt_size.symm)
  omega

/-- An element written to the slot `rear` is the newest. -/
theorem contents_push (slots : Nat → Element) (element : Element) (front_le : front ≤ size)
    (rear_le : rear ≤ size) (space : occupancy size front rear < size) :
    contents size (Function.update slots rear element) front (advance size rear) =
      contents size slots front rear ++ [element] := by
  have outside : ∀ position < occupancy size front rear, slotAt size front position ≠ rear := by
    intro position position_lt equal
    have last := slotAt_injective (by omega) (occupancy_le _ rear_le)
      (equal.trans (slotAt_occupancy front_le rear_le).symm)
    omega
  rw [contents, occupancy_advance_rear front_le space, List.range_succ, List.map_append,
    List.map_singleton, slotAt_occupancy front_le rear_le, Function.update_self]
  exact congrArg (· ++ [element]) (contents_update_outside slots element outside)

/-- The slot `front` holds the oldest element. -/
theorem contents_pop (slots : Nat → Element) (front_le : front ≤ size) (rear_le : rear ≤ size)
    (nonempty : 0 < occupancy size front rear) :
    contents size slots front rear =
      slots front :: contents size slots (advance size front) rear := by
  have count := occupancy_advance_front front_le rear_le nonempty
  have bound := occupancy_le front rear_le
  have first : slotAt size front 0 = front := by
    unfold slotAt
    split <;> omega
  rw [contents, count, List.range_succ_eq_map, List.map_cons, List.map_map, first]
  refine congrArg (slots front :: ·) (List.map_congr_left fun position member => ?_)
  have position_lt := List.mem_range.mp member
  change slots (slotAt size front (position + 1)) = slots (slotAt size _ position)
  rw [slotAt_advance (by omega)]

end RingBuffer
end StorageStack
