import Mathlib.Tactic

/-!
# Tables with a journal and two copies of each block

A table keeps the entry of a key in a journal of limited size or in a block of entries.  Each block
has two places on the device and a bit that tells which of them is current.  A lookup takes the
first journal entry of the key, else the entry in the current copy of its block.  An update writes
to the journal, or copies the block to its other place, switches the bit and writes there, so that
the copy which was current before stays as it was.
-/

namespace StorageStack
namespace ShadowTable

variable {Entry : Type*}

/-! ## The journal -/

/-- The first of `count` journal slots with `key`. -/
def indexOf (keys : Nat → Nat) (count key : Nat) : Option Nat :=
  (List.range count).find? fun index => keys index == key

/-- No key has two journal slots. -/
def Distinct (keys : Nat → Nat) (count : Nat) : Prop :=
  ∀ left < count, ∀ right < count, keys left = keys right → left = right

theorem indexOf_eq_none {keys : Nat → Nat} {count key : Nat} :
    indexOf keys count key = none ↔ ∀ index < count, keys index ≠ key := by
  simp [indexOf, List.find?_eq_none]

theorem indexOf_some {keys : Nat → Nat} {count key index : Nat}
    (found : indexOf keys count key = some index) : index < count ∧ keys index = key := by
  have member := List.mem_of_find?_eq_some found
  have matched := List.find?_some found
  exact ⟨List.mem_range.mp member, by simpa using matched⟩

theorem indexOf_eq_some {keys : Nat → Nat} {count key index : Nat} (distinct : Distinct keys count) :
    indexOf keys count key = some index ↔ index < count ∧ keys index = key := by
  constructor
  · exact indexOf_some
  · rintro ⟨small, matched⟩
    cases found : indexOf keys count key with
    | none => exact absurd matched (indexOf_eq_none.mp found index small)
    | some other =>
        obtain ⟨small', matched'⟩ := indexOf_some found
        rw [distinct other small' index small (matched'.trans matched.symm)]

/-- An entry for a new key takes the next slot. -/
theorem distinct_push {keys : Nat → Nat} {count key : Nat} (distinct : Distinct keys count)
    (absent : indexOf keys count key = none) :
    Distinct (Function.update keys count key) (count + 1) := by
  have fresh := indexOf_eq_none.mp absent
  intro left left_lt right right_lt equal
  by_cases left_last : left = count <;> by_cases right_last : right = count
  · rw [left_last, right_last]
  · rw [left_last, Function.update_self, Function.update_of_ne right_last] at equal
    exact absurd equal.symm (fresh right (by omega))
  · rw [right_last, Function.update_self, Function.update_of_ne left_last] at equal
    exact absurd equal (fresh left (by omega))
  · rw [Function.update_of_ne left_last, Function.update_of_ne right_last] at equal
    exact distinct left (by omega) right (by omega) equal

theorem indexOf_push {keys : Nat → Nat} {count key : Nat} (other : Nat)
    (distinct : Distinct keys count) (absent : indexOf keys count key = none) :
    indexOf (Function.update keys count key) (count + 1) other =
      if other = key then some count else indexOf keys count other := by
  split
  · next same =>
      rw [same, indexOf_eq_some (distinct_push distinct absent)]
      exact ⟨by omega, Function.update_self _ _ _⟩
  · next ne =>
      cases found : indexOf keys count other with
      | none =>
          rw [indexOf_eq_none]
          intro index small equal
          by_cases last : index = count
          · rw [last, Function.update_self] at equal
            exact ne equal.symm
          · rw [Function.update_of_ne last] at equal
            exact indexOf_eq_none.mp found index (by omega) equal
      | some index =>
          obtain ⟨small, matched⟩ := indexOf_some found
          rw [indexOf_eq_some (distinct_push distinct absent)]
          exact ⟨by omega, by rw [Function.update_of_ne (by omega)]; exact matched⟩

/-! ## Lookups -/

/-- The entry of a key: from the journal, else from the blocks. -/
def lookup (keys : Nat → Nat) (count : Nat) (values stored : Nat → Entry) (key : Nat) : Entry :=
  match indexOf keys count key with
  | some index => values index
  | none => stored key

theorem lookup_of_absent {keys : Nat → Nat} {count key : Nat} {values stored : Nat → Entry}
    (absent : indexOf keys count key = none) :
    lookup keys count values stored key = stored key := by
  rw [lookup, absent]

/-- Overwriting the slot of a key changes the entry of that key only. -/
theorem lookup_overwrite {keys : Nat → Nat} {count key index : Nat} {values stored : Nat → Entry}
    (value : Entry) (other : Nat) (found : indexOf keys count key = some index) :
    lookup keys count (Function.update values index value) stored other =
      if other = key then value else lookup keys count values stored other := by
  unfold lookup
  by_cases same : other = key
  · rw [if_pos same, same, found]
    exact Function.update_self _ _ _
  · rw [if_neg same]
    cases found' : indexOf keys count other with
    | none => rfl
    | some index' =>
        have ne : index' ≠ index := by
          rintro rfl
          exact same ((indexOf_some found').2.symm.trans (indexOf_some found).2)
        exact Function.update_of_ne ne _ _

/-- An entry in a new slot changes the entry of its key only. -/
theorem lookup_push {keys : Nat → Nat} {count key : Nat} {values stored : Nat → Entry}
    (value : Entry) (other : Nat) (distinct : Distinct keys count)
    (absent : indexOf keys count key = none) :
    lookup (Function.update keys count key) (count + 1) (Function.update values count value)
        stored other =
      if other = key then value else lookup keys count values stored other := by
  unfold lookup
  rw [indexOf_push other distinct absent]
  by_cases same : other = key
  · rw [if_pos same, if_pos same]
    exact Function.update_self _ _ _
  · rw [if_neg same, if_neg same]
    cases found : indexOf keys count other with
    | none => rfl
    | some index => exact Function.update_of_ne (indexOf_some found).1.ne _ _

/-- Blocks which agree outside the journal give the same entries. -/
theorem lookup_congr {keys : Nat → Nat} {count : Nat} {values stored stored' : Nat → Entry}
    {key : Nat} (agree : indexOf keys count key = none → stored key = stored' key) :
    lookup keys count values stored key = lookup keys count values stored' key := by
  unfold lookup
  cases found : indexOf keys count key with
  | none => exact agree found
  | some index => rfl

/-! ## The blocks -/

/-- The two places of the blocks below `limit` are all different. -/
def Separate (address : Nat → Bool → Nat) (limit : Nat) : Prop :=
  ∀ left < limit, ∀ right < limit, ∀ here there,
    address left here = address right there → left = right ∧ here = there

/-- The entry of a key in the current copy of its block. -/
def stored (size : Nat) (address : Nat → Bool → Nat) (pages : Nat → Nat → Entry)
    (current : Nat → Bool) (key : Nat) : Entry :=
  pages (address (key / size) (current (key / size))) (key % size)

variable {size limit : Nat} {address : Nat → Bool → Nat} {pages : Nat → Nat → Entry}
  {current : Nat → Bool}

/-- A block which is copied to its other place and switched there has the same entries. -/
theorem stored_switch {block key : Nat} (separate : Separate address limit) (small : block < limit)
    (inside : key / size < limit) :
    stored size address
        (Function.update pages (address block (!current block))
          (pages (address block (current block))))
        (Function.update current block (!current block)) key =
      stored size address pages current key := by
  unfold stored
  by_cases same : key / size = block
  · rw [same, Function.update_self, Function.update_self]
  · rw [Function.update_of_ne same, Function.update_of_ne]
    intro equal
    exact same (separate _ inside _ small _ _ equal).1

/-- A write to the current copy of a block changes the entry of its key only. -/
theorem stored_write {key other : Nat} (separate : Separate address limit) (value : Entry)
    (inside : key / size < limit) (inside' : other / size < limit) :
    stored size address
        (Function.update pages (address (key / size) (current (key / size)))
          (Function.update (pages (address (key / size) (current (key / size)))) (key % size) value))
        current other =
      if other = key then value else stored size address pages current other := by
  unfold stored
  by_cases same : other = key
  · rw [if_pos same, same, Function.update_self, Function.update_self]
  · rw [if_neg same]
    by_cases sameBlock : other / size = key / size
    · rw [sameBlock, Function.update_self, Function.update_of_ne]
      intro sameOffset
      apply same
      rw [← Nat.div_add_mod other size, ← Nat.div_add_mod key size, sameBlock, sameOffset]
    · rw [Function.update_of_ne]
      intro equal
      exact sameBlock (separate _ inside' _ inside _ _ equal).1

end ShadowTable
end StorageStack
