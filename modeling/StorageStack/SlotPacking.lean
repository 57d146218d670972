import StorageStack.BitMap

/-!
# Records in the slots of a bit map

Records of varying width occupy disjoint ranges of slots, and a bit map marks the slots in use.
A reader that starts at slot zero, skips clear slots and jumps over each record it meets, always
stands at the start of a record or at a clear slot; the file proves this of any such packing, and
that marking a clear range adds a record and clearing a record's range takes it away.
-/

namespace StorageStack

namespace BitMap

/-- Set `count` bits from `start` on. -/
def setRange (map : BitMap) (start : Nat) : Nat → BitMap
  | 0 => map
  | count + 1 => (map.setRange start count).set (start + count)

/-- Clear `count` bits from `start` on. -/
def clearRange (map : BitMap) (start : Nat) : Nat → BitMap
  | 0 => map
  | count + 1 => (map.clearRange start count).clear (start + count)

theorem setRange_apply (map : BitMap) (start count bit : Nat) :
    map.setRange start count bit =
      if start ≤ bit ∧ bit < start + count then true else map bit := by
  induction count with
  | zero =>
      rw [setRange, if_neg]
      omega
  | succ count ih =>
      rw [setRange, set_apply, ih]
      grind

theorem clearRange_apply (map : BitMap) (start count bit : Nat) :
    map.clearRange start count bit =
      if start ≤ bit ∧ bit < start + count then false else map bit := by
  induction count with
  | zero =>
      rw [clearRange, if_neg]
      omega
  | succ count ih =>
      rw [clearRange, clear_apply, ih]
      grind

end BitMap

namespace SlotPacking

variable {α : Type*} {width : α → Nat} {size : Nat} {map : BitMap} {holds : Nat → α → Prop}

/-- The relation `holds`, from first slots to records, is a packing of the first `size` slots: the
records lie inside, occupy disjoint ranges, and the marked slots are those they occupy. -/
structure Packs (width : α → Nat) (size : Nat) (map : BitMap) (holds : Nat → α → Prop) :
    Prop where
  positive : ∀ {start record}, holds start record → 0 < width record
  inside : ∀ {start record}, holds start record → start + width record ≤ size
  marked : ∀ {start record}, holds start record →
    ∀ bit, start ≤ bit → bit < start + width record → map bit = true
  apart : ∀ {start record other second}, holds start record → holds other second →
    (start = other ∧ record = second) ∨ start + width record ≤ other ∨
      other + width second ≤ start
  covered : ∀ {bit}, bit < size → map bit = true →
    ∃ start record, holds start record ∧ start ≤ bit ∧ bit < start + width record

/-- No record reaches across the slot. -/
def Boundary (width : α → Nat) (holds : Nat → α → Prop) (bit : Nat) : Prop :=
  ∀ start record, holds start record → start < bit → start + width record ≤ bit

theorem boundary_zero : Boundary width holds 0 := by
  intro start record _ before
  omega

/-- A packing of an empty bit map has no records. -/
theorem packs_empty (width : α → Nat) (size : Nat) :
    Packs width size BitMap.empty fun _ _ => False where
  positive := False.elim
  inside := False.elim
  marked := False.elim
  apart := False.elim
  covered _ found := by simp at found

namespace Packs

/-- At most one record starts at a slot. -/
theorem unique (packs : Packs width size map holds) {start : Nat} {record second : α}
    (first : holds start record) (again : holds start second) : record = second := by
  have firstPos := packs.positive first
  have againPos := packs.positive again
  rcases packs.apart first again with ⟨_, same⟩ | before | after
  · exact same
  · omega
  · omega

/-- The slot after a clear boundary slot is a boundary. -/
theorem boundary_succ (packs : Packs width size map holds) {bit : Nat}
    (boundary : Boundary width holds bit) (unset : map bit = false) :
    Boundary width holds (bit + 1) := by
  intro start record held before
  have positive := packs.positive held
  by_cases here : start = bit
  · have isSet := packs.marked held bit (by omega) (by omega)
    rw [unset] at isSet
    cases isSet
  · have ends := boundary start record held (by omega)
    omega

/-- The slot after a record is a boundary. -/
theorem boundary_after (packs : Packs width size map holds) {start : Nat} {record : α}
    (held : holds start record) : Boundary width holds (start + width record) := by
  intro other second also before
  rcases packs.apart held also with ⟨rfl, rfl⟩ | past | earlier
  · exact Nat.le_refl _
  · omega
  · omega

/-- A marked boundary slot is the start of a record. -/
theorem start_of_boundary (packs : Packs width size map holds) {bit : Nat}
    (boundary : Boundary width holds bit) (small : bit < size) (isSet : map bit = true) :
    ∃ record, holds bit record := by
  obtain ⟨start, record, held, from_start, before⟩ := packs.covered small isSet
  have here : start = bit := by
    by_contra ne
    have ends := boundary start record held (by omega)
    omega
  exact ⟨record, here ▸ held⟩

/-- A marked slot belongs to one record. -/
theorem owner_unique (packs : Packs width size map holds) {bit start other : Nat}
    {record second : α} (held : holds start record) (also : holds other second)
    (low : start ≤ bit) (high : bit < start + width record) (low' : other ≤ bit)
    (high' : bit < other + width second) : start = other ∧ record = second := by
  rcases packs.apart held also with same | before | after
  · exact same
  · omega
  · omega

/-- The first slot of a record is marked. -/
theorem marked_start (packs : Packs width size map holds) {start : Nat} {record : α}
    (held : holds start record) : map start = true := by
  have positive := packs.positive held
  exact packs.marked held start (Nat.le_refl _) (by omega)

/-- The search for the next marked slot does not pass the start of a record. -/
theorem findNextBit_le (packs : Packs width size map holds) {bit start : Nat} {record : α}
    (held : holds start record) (late : bit ≤ start) : map.findNextBit size bit ≤ start := by
  by_contra passed
  have before : start < map.findNextBit size bit := by omega
  exact BitMap.findNext_skipped late before (packs.marked_start held)

/-- Marking a clear range adds a record. -/
theorem insert (packs : Packs width size map holds) {start : Nat} {record : α}
    (positive : 0 < width record) (inside : start + width record ≤ size)
    (free : ∀ bit, start ≤ bit → bit < start + width record → map bit = false) :
    Packs width size (map.setRange start (width record))
      fun other second => holds other second ∨ (other = start ∧ second = record) := by
  have clear_of_held : ∀ {other second}, holds other second →
      start + width record ≤ other ∨ other + width second ≤ start := by
    intro other second held
    have pos := packs.positive held
    by_contra overlap
    have isSet := packs.marked held (max start other) (by omega) (by omega)
    rw [free (max start other) (by omega) (by omega)] at isSet
    cases isSet
  constructor
  · rintro other second (held | ⟨rfl, rfl⟩)
    · exact packs.positive held
    · exact positive
  · rintro other second (held | ⟨rfl, rfl⟩)
    · exact packs.inside held
    · exact inside
  · rintro other second (held | ⟨rfl, rfl⟩) bit low high
    · rw [BitMap.setRange_apply, packs.marked held bit low high, ite_self]
    · rw [BitMap.setRange_apply, if_pos ⟨low, high⟩]
  · rintro other second third fourth (held | ⟨rfl, rfl⟩) (also | ⟨rfl, rfl⟩)
    · exact packs.apart held also
    · exact Or.inr (clear_of_held held).symm
    · exact Or.inr (clear_of_held also)
    · exact Or.inl ⟨rfl, rfl⟩
  · intro bit small isSet
    rw [BitMap.setRange_apply] at isSet
    by_cases new : start ≤ bit ∧ bit < start + width record
    · exact ⟨start, record, Or.inr ⟨rfl, rfl⟩, new⟩
    · rw [if_neg new] at isSet
      obtain ⟨other, second, held, range⟩ := packs.covered small isSet
      exact ⟨other, second, Or.inl held, range⟩

/-- Clearing the range of a record takes it away. -/
theorem remove (packs : Packs width size map holds) {start : Nat} {record : α}
    (held : holds start record) :
    Packs width size (map.clearRange start (width record))
      fun other second => holds other second ∧ other ≠ start := by
  constructor
  · rintro other second ⟨also, _⟩
    exact packs.positive also
  · rintro other second ⟨also, _⟩
    exact packs.inside also
  · rintro other second ⟨also, ne⟩ bit low high
    rw [BitMap.clearRange_apply, if_neg]
    · exact packs.marked also bit low high
    · rintro ⟨low', high'⟩
      exact ne (packs.owner_unique also held low high low' high').1
  · rintro other second third fourth ⟨also, _⟩ ⟨too, _⟩
    exact packs.apart also too
  · intro bit small isSet
    rw [BitMap.clearRange_apply] at isSet
    split at isSet
    · cases isSet
    · next outside =>
        obtain ⟨other, second, also, low, high⟩ := packs.covered small isSet
        refine ⟨other, second, ⟨also, ?_⟩, low, high⟩
        rintro rfl
        have same := packs.unique also held
        subst same
        exact outside ⟨low, high⟩

/-- The relation may be replaced by an equivalent one. -/
theorem congr (packs : Packs width size map holds) {other : Nat → α → Prop}
    (same : ∀ start record, other start record ↔ holds start record) :
    Packs width size map other := by
  have eq : other = holds := by
    funext start record
    exact propext (same start record)
  exact eq ▸ packs

/-- Records may be replaced by others of the same widths. -/
theorem relabel (packs : Packs width size map holds) {other : Nat → α → Prop}
    (old : ∀ start record, other start record →
      ∃ before, holds start before ∧ width record = width before)
    (new : ∀ start record, holds start record →
      ∃ after, other start after ∧ width after = width record)
    (unique : ∀ start record second, other start record → other start second → record = second) :
    Packs width size map other where
  positive held := by
    obtain ⟨before, stored, same⟩ := old _ _ held
    rw [same]
    exact packs.positive stored
  inside held := by
    obtain ⟨before, stored, same⟩ := old _ _ held
    rw [same]
    exact packs.inside stored
  marked held := by
    obtain ⟨before, stored, same⟩ := old _ _ held
    rw [same]
    exact packs.marked stored
  apart {start record place second} held also := by
    obtain ⟨before, stored, same⟩ := old _ _ held
    obtain ⟨before', stored', same'⟩ := old _ _ also
    rw [same, same']
    rcases packs.apart stored stored' with ⟨here, _⟩ | rest
    · subst here
      exact Or.inl ⟨rfl, unique _ _ _ held also⟩
    · exact Or.inr rest
  covered small isSet := by
    obtain ⟨start, record, stored, low, high⟩ := packs.covered small isSet
    obtain ⟨after, held, same⟩ := new _ _ stored
    exact ⟨start, after, held, low, same ▸ high⟩

/-- A packing is empty exactly when no slot is marked. -/
theorem findNextBit_eq_size_iff (packs : Packs width size map holds) :
    map.findNextBit size 0 = size ↔ ∀ start record, ¬ holds start record := by
  constructor
  · intro none_set start record held
    have positive := packs.positive held
    have within := packs.inside held
    have stop := packs.findNextBit_le held (Nat.zero_le start)
    omega
  · intro empty
    have top : map.findNextBit size 0 ≤ size := BitMap.findNext_le _ _ _ _
    by_contra found
    have small : map.findNextBit size 0 < size := by omega
    obtain ⟨start, record, held, _⟩ := packs.covered small (BitMap.findNext_found small)
    exact empty start record held

end Packs

/-! ## The walk over the records -/

/-- The slots at which a reader stops that jumps from each marked slot by the stride it reads
there. -/
def walk (size : Nat) (map : BitMap) (stride : Nat → Nat) : Nat → Nat → List Nat
  | 0, _ => []
  | rounds + 1, bit =>
      if size ≤ map.findNextBit size bit then []
      else map.findNextBit size bit ::
        walk size map stride rounds
          (map.findNextBit size bit + stride (map.findNextBit size bit))

end SlotPacking

end StorageStack
