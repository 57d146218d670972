import Mathlib.Tactic

/-!
# Block devices

Blocks as pages of bytes, with the copies and little-endian words a program makes in them, and a
device as the map from addresses to blocks.  A sequence of writes in increasing order of address
stores each of its blocks, and so does every part of it that a power failure leaves.
-/

namespace StorageStack

/-- The bytes of a block by their offset. -/
abbrev Page := Nat → UInt8

namespace Page

/-- `memset` of a page to zero. -/
def zero : Page := fun _ => 0

/-- `memcpy` of `length` bytes from an offset of another page. -/
def copy (page : Page) (offset : Nat) (source : Page) (sourceOffset length : Nat) : Page :=
  fun index =>
    if offset ≤ index ∧ index < offset + length then source (sourceOffset + (index - offset))
    else page index

/-- The little-endian word of 16 bits at an offset. -/
def le16 (page : Page) (offset : Nat) : UInt16 :=
  UInt16.ofNat ((page offset).toNat + 2 ^ 8 * (page (offset + 1)).toNat)

/-- The little-endian word of 32 bits at an offset. -/
def le32 (page : Page) (offset : Nat) : UInt32 :=
  UInt32.ofNat ((page offset).toNat + 2 ^ 8 * (page (offset + 1)).toNat +
    2 ^ 16 * (page (offset + 2)).toNat + 2 ^ 24 * (page (offset + 3)).toNat)

/-- The bytes of a word, the lowest first. -/
def wordBytes (word : Nat) : Page := fun index => UInt8.ofNat (word / 2 ^ (8 * index))

/-- Store a word of 16 bits. -/
def putLe16 (page : Page) (offset word : Nat) : Page := page.copy offset (wordBytes word) 0 2

/-- Store a word of 32 bits. -/
def putLe32 (page : Page) (offset : Nat) (word : UInt32) : Page :=
  page.copy offset (wordBytes word.toNat) 0 4

theorem copy_inside {page source : Page} {offset sourceOffset length index : Nat}
    (inside : index < length) :
    page.copy offset source sourceOffset length (offset + index) = source (sourceOffset + index) := by
  rw [copy, if_pos (by omega), Nat.add_sub_cancel_left]

theorem copy_outside {page source : Page} {offset sourceOffset length index : Nat}
    (outside : index < offset ∨ offset + length ≤ index) :
    page.copy offset source sourceOffset length index = page index := by
  rw [copy, if_neg (by omega)]

theorem putLe16_outside {page : Page} {offset word index : Nat}
    (outside : index < offset ∨ offset + 2 ≤ index) : page.putLe16 offset word index = page index :=
  copy_outside outside

theorem putLe32_outside {page : Page} {offset index : Nat} {word : UInt32}
    (outside : index < offset ∨ offset + 4 ≤ index) : page.putLe32 offset word index = page index :=
  copy_outside outside

/-- A word depends on its four bytes only. -/
theorem le32_congr {left right : Page} {offset : Nat}
    (same : ∀ index < 4, left (offset + index) = right (offset + index)) :
    left.le32 offset = right.le32 offset := by
  have first := same 0 (by decide)
  rw [Nat.add_zero] at first
  rw [le32, le32, first, same 1 (by decide), same 2 (by decide), same 3 (by decide)]

@[simp] theorem le32_zero (offset : Nat) : zero.le32 offset = 0 := by
  simp [le32, zero]

/-- What is stored is read back. -/
@[simp] theorem le32_putLe32 (page : Page) (offset : Nat) (word : UInt32) :
    (page.putLe32 offset word).le32 offset = word := by
  have byte (index : Nat) (inside : index < 4) :
      page.putLe32 offset word (offset + index) = wordBytes word.toNat index := by
    rw [putLe32, copy_inside inside, Nat.zero_add]
  have first := byte 0 (by decide)
  rw [Nat.add_zero] at first
  rw [le32, first, byte 1 (by decide), byte 2 (by decide), byte 3 (by decide)]
  apply UInt32.toNat_inj.mp
  have bound := word.toNat_lt
  simp only [wordBytes, UInt32.toNat_ofNat', UInt8.toNat_ofNat']
  omega

theorem le32_putLe32_of_apart {page : Page} {offset other : Nat} {word : UInt32}
    (apart : other + 4 ≤ offset ∨ offset + 4 ≤ other) :
    (page.putLe32 offset word).le32 other = page.le32 other :=
  le32_congr fun index inside => putLe32_outside (by omega)

theorem le32_putLe16_of_apart {page : Page} {offset other word : Nat}
    (apart : other + 4 ≤ offset ∨ offset + 2 ≤ other) :
    (page.putLe16 offset word).le32 other = page.le32 other :=
  le32_congr fun index inside => putLe16_outside (by omega)

end Page

/-! ## Writes to a device -/

/-- The block stored at each address. -/
abbrev Device (β : Type*) := Nat → β

namespace Device

variable {β : Type*}

/-- The device after a sequence of writes. -/
def persist (device : Device β) (writes : List (Nat × β)) : Device β :=
  writes.foldl (fun device write => Function.update device write.1 write.2) device

@[simp] theorem persist_cons (device : Device β) (write : Nat × β) (writes : List (Nat × β)) :
    device.persist (write :: writes) =
      persist (Function.update device write.1 write.2) writes := rfl

theorem persist_append (device : Device β) (left right : List (Nat × β)) :
    device.persist (left ++ right) = (device.persist left).persist right :=
  List.foldl_append

/-- A block which is not written stays as it was. -/
theorem persist_of_notMem {device : Device β} {writes : List (Nat × β)} {address : Nat}
    (untouched : address ∉ writes.map Prod.fst) :
    device.persist writes address = device address := by
  induction writes generalizing device with
  | nil => rfl
  | cons write writes induction =>
      rw [List.map_cons, List.mem_cons, not_or] at untouched
      rw [persist_cons, induction untouched.2]
      exact Function.update_of_ne untouched.1 _ _

/-- No two writes go to one address. -/
def Ordered (writes : List (Nat × β)) : Prop := (writes.map Prod.fst).Pairwise (· < ·)

/-- Writes to different addresses all stand. -/
theorem persist_of_mem {device : Device β} {writes : List (Nat × β)} {address : Nat} {block : β}
    (ordered : Ordered writes) (written : (address, block) ∈ writes) :
    device.persist writes address = block := by
  induction writes generalizing device with
  | nil => cases written
  | cons write writes induction =>
      obtain ⟨above, rest⟩ := List.pairwise_cons.mp ordered
      rw [persist_cons]
      rcases List.mem_cons.mp written with rfl | later
      · have once : address ∉ writes.map Prod.fst :=
          fun again => Nat.lt_irrefl _ (above address again)
        rw [persist_of_notMem once]
        exact Function.update_self _ _ _
      · exact induction rest later

theorem Ordered.append {left right : List (Nat × β)} (first : Ordered left) (second : Ordered right)
    (split : Nat) (below : ∀ address ∈ left.map Prod.fst, address < split)
    (above : ∀ address ∈ right.map Prod.fst, split ≤ address) : Ordered (left ++ right) := by
  rw [Ordered, List.map_append, List.pairwise_append]
  exact ⟨first, second, fun low inLeft high inRight =>
    (below low inLeft).trans_le (above high inRight)⟩

theorem Ordered.take {writes : List (Nat × β)} (ordered : Ordered writes) (count : Nat) :
    Ordered (writes.take count) := by
  rw [Ordered, List.map_take]
  exact List.Pairwise.sublist (List.take_sublist _ _) ordered

/-- Blocks written one after the other from a first address on. -/
def consecutive (start : Nat) (blocks : List β) : List (Nat × β) :=
  blocks.zipIdx.map fun indexed => (start + indexed.2, indexed.1)

theorem map_fst_consecutive (start : Nat) (blocks : List β) :
    (consecutive start blocks).map Prod.fst = (List.range blocks.length).map (start + ·) := by
  rw [consecutive, List.map_map, List.range_eq_range', ← List.zipIdx_map_snd 0 blocks, List.map_map]
  rfl

/-- Writes to a range of addresses in their order. -/
theorem ordered_of_addresses {writes : List (Nat × β)} {start length : Nat}
    (addresses : writes.map Prod.fst = (List.range length).map (start + ·)) : Ordered writes := by
  rw [Ordered, addresses, List.pairwise_map]
  exact List.Pairwise.imp (fun below => Nat.add_lt_add_left below start) List.pairwise_lt_range

theorem mem_addresses {start length address : Nat} :
    address ∈ (List.range length).map (start + ·) ↔ start ≤ address ∧ address < start + length := by
  simp only [List.mem_map, List.mem_range]
  constructor
  · rintro ⟨index, inside, rfl⟩
    omega
  · rintro ⟨lower, upper⟩
    exact ⟨address - start, by omega, by omega⟩

theorem ordered_consecutive (start : Nat) (blocks : List β) : Ordered (consecutive start blocks) :=
  ordered_of_addresses (map_fst_consecutive start blocks)

theorem mem_consecutive {start address : Nat} {blocks : List β} {block : β} :
    (address, block) ∈ consecutive start blocks ↔
      ∃ index, blocks[index]? = some block ∧ address = start + index := by
  simp only [consecutive, List.mem_map, Prod.exists, Prod.mk.injEq,
    List.mem_zipIdx_iff_getElem?]
  constructor
  · rintro ⟨_, index, found, rfl, rfl⟩
    exact ⟨index, found, rfl⟩
  · rintro ⟨index, found, rfl⟩
    exact ⟨block, index, found, rfl, rfl⟩

end Device
end StorageStack
