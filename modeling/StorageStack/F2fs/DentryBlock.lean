import StorageStack.SlotPacking

/-!
# Dentry blocks

A block of a directory holds up to 214 slots: a bit map of the slots in use, an array of entries
and an array of eight-byte pieces of names.  A name takes as many consecutive slots as it needs, and
the entry at the first of them describes it.  The file follows `find_in_block`,
`room_for_filename`, the lines of `__f2fs_add_link` and `f2fs_delete_entry` that change a block, and
`f2fs_dentry_hash`.
-/

namespace StorageStack.F2fs

abbrev Byte := BitVec 8

/-- A file name as the VFS passes it on: not empty and at most `F2FS_NAME_LEN` bytes, which
`f2fs_lookup` checks. -/
@[ext] structure FileName where
  bytes : List Byte
  pos : 0 < bytes.length
  le : bytes.length ≤ 255
deriving DecidableEq

/-- The fields of an inode that an entry records. -/
structure InodeRef where
  ino : BitVec 32
  mode : BitVec 16
deriving DecidableEq

/-! ## Hashing -/

/-- The rounds of `TEA_transform`. -/
def teaRounds (in0 in1 in2 in3 : BitVec 32) :
    Nat → BitVec 32 → BitVec 32 → BitVec 32 → BitVec 32 × BitVec 32
  | 0, _, b0, b1 => (b0, b1)
  | rounds + 1, sum, b0, b1 =>
      let sum := sum + 0x9E3779B9
      let b0 := b0 + (((b1 <<< 4) + in0) ^^^ (b1 + sum) ^^^ ((b1 >>> 5) + in1))
      let b1 := b1 + (((b0 <<< 4) + in2) ^^^ (b0 + sum) ^^^ ((b0 >>> 5) + in3))
      teaRounds in0 in1 in2 in3 rounds sum b0 b1

/-- `TEA_transform`; only the first two words of the buffer change. -/
def teaTransform (buf : BitVec 32 × BitVec 32) (words : List (BitVec 32)) :
    BitVec 32 × BitVec 32 :=
  let rounds := teaRounds (words.getD 0 0) (words.getD 1 0) (words.getD 2 0) (words.getD 3 0)
    16 0 buf.1 buf.2
  (buf.1 + rounds.1, buf.2 + rounds.2)

/-- The loop of `str2hashbuf` over the bytes: the word being filled and the finished words. -/
def str2hashbufBytes (pad : BitVec 32) :
    List Byte → Nat → BitVec 32 → List (BitVec 32) → BitVec 32 × List (BitVec 32)
  | [], _, val, words => (val, words)
  | byte :: bytes, i, val, words =>
      let start := if i % 4 = 0 then pad else val
      let val := byte.setWidth 32 + (start <<< 8)
      if i % 4 = 3 then str2hashbufBytes pad bytes (i + 1) pad (words ++ [val])
      else str2hashbufBytes pad bytes (i + 1) val words

/-- `str2hashbuf`, for a buffer of `num` words. -/
def str2hashbuf (msg : List Byte) (num : Nat) : List (BitVec 32) :=
  let len := BitVec.ofNat 32 msg.length
  let half := len ||| (len <<< 8)
  let pad := half ||| (half <<< 16)
  let filled := str2hashbufBytes pad (msg.take (num * 4)) 0 pad []
  let rest := num - filled.2.length
  if rest = 0 then filled.2
  else filled.2 ++ filled.1 :: List.replicate (rest - 1) pad

/-- The loop of `f2fs_dentry_hash`, sixteen bytes a round. -/
def hashRounds : Nat → List Byte → BitVec 32 × BitVec 32 → BitVec 32 × BitVec 32
  | 0, _, buf => buf
  | rounds + 1, msg, buf =>
      let buf := teaTransform buf (str2hashbuf msg 4)
      if msg.length ≤ 16 then buf else hashRounds rounds (msg.drop 16) buf

/-- `F2FS_HASH_COL_BIT`. -/
def hashColBit : BitVec 64 := 1 <<< 63

/-- `f2fs_dentry_hash`.  A name is followed by a zero byte, which the test for `"."` reads. -/
def f2fsDentryHash (name : FileName) : BitVec 32 :=
  let byte i := name.bytes.getD i 0
  if name.bytes.length ≤ 2 ∧ byte 0 = 0x2E ∧ (byte 1 = 0x2E ∨ byte 1 = 0) then 0
  else
    let hash := (hashRounds name.bytes.length name.bytes (0x67452301, 0xefcdab89)).1
    (hash.setWidth 64 &&& ~~~hashColBit).setWidth 32

/-! ## Blocks -/

/-- `struct f2fs_dir_entry`. -/
structure DirEntry where
  hashCode : BitVec 32
  ino : BitVec 32
  nameLen : Nat
  fileType : Nat
deriving DecidableEq

/-- `NR_DENTRY_IN_BLOCK`. -/
def nrDentryInBlock : Nat := 214

/-- `GET_DENTRY_SLOTS`: slots of `F2FS_SLOT_LEN` bytes. -/
def getDentrySlots (len : Nat) : Nat := (len + 8 - 1) / 8

/-- `struct f2fs_dentry_block`; `filename` is the array of slots as one run of bytes. -/
structure DentryBlock where
  bitmap : BitMap
  dentry : Nat → DirEntry
  filename : Nat → Byte

/-- A page of zeros. -/
def DentryBlock.zero : DentryBlock where
  bitmap := BitMap.empty
  dentry := fun _ => ⟨0, 0, 0, 0⟩
  filename := fun _ => 0

/-- `f2fs_type_by_mode`, indexed by the format bits of a mode. -/
def f2fsTypeByMode : Nat → Nat
  | 8 => 1
  | 4 => 2
  | 2 => 3
  | 6 => 4
  | 1 => 5
  | 12 => 6
  | 10 => 7
  | _ => 0

/-- The type that `set_de_type` records. -/
def deType (mode : BitVec 16) : Nat := f2fsTypeByMode ((mode &&& 0xF000) >>> 12).toNat

/-- The entry that `__f2fs_add_link` writes for a name; its length is stored in sixteen bits. -/
def dirEntryOf (name : FileName) (inode : InodeRef) : DirEntry where
  hashCode := f2fsDentryHash name
  ino := inode.ino
  nameLen := name.bytes.length % 2 ^ 16
  fileType := deType inode.mode

/-- The first `len` bytes of the name stored from a slot on. -/
def DentryBlock.readName (blk : DentryBlock) (bitPos len : Nat) : List Byte :=
  (List.range len).map fun i => blk.filename (8 * bitPos + i)

/-- `early_match_name`. -/
def earlyMatchName (nameLen : Nat) (nameHash : BitVec 32) (de : DirEntry) : Bool :=
  de.nameLen == nameLen && de.hashCode == nameHash

/-- The loop of `find_in_block`; `maxLen` counts the clear slots met. -/
def findInBlockFrom (blk : DentryBlock) (name : FileName) (nameHash : BitVec 32) :
    Nat → Nat → Nat → Nat → Option Nat × Nat
  | 0, _, maxLen, maxSlots => (none, max maxLen maxSlots)
  | rounds + 1, bitPos, maxLen, maxSlots =>
      if nrDentryInBlock ≤ bitPos then (none, max maxLen maxSlots)
      else if blk.bitmap bitPos = false then
        findInBlockFrom blk name nameHash rounds (bitPos + 1)
          (if bitPos = 0 then 1
            else if blk.bitmap (bitPos - 1) = false then maxLen + 1 else maxLen) maxSlots
      else if earlyMatchName name.bytes.length nameHash (blk.dentry bitPos) = true ∧
          blk.readName bitPos name.bytes.length = name.bytes then
        (some bitPos, max maxLen maxSlots)
      else
        findInBlockFrom blk name nameHash rounds
          (bitPos + getDentrySlots (blk.dentry bitPos).nameLen)
          (if maxSlots < maxLen then 0 else maxLen) (max maxLen maxSlots)

/-- `find_in_block`: the slot of the entry with the name, and the new `max_slots`.  An entry in use
takes a slot at least, so there are at most as many rounds as slots. -/
@[irreducible] def findInBlock (blk : DentryBlock) (name : FileName) (maxSlots : Nat) (nameHash : BitVec 32) :
    Option Nat × Nat :=
  findInBlockFrom blk name nameHash (nrDentryInBlock + 1) 0 0 maxSlots

/-- The loop of `room_for_filename`. -/
def roomForFilenameFrom (blk : DentryBlock) (slots : Nat) : Nat → Nat → Nat
  | 0, _ => nrDentryInBlock
  | rounds + 1, bitStart =>
      let zeroStart := blk.bitmap.findNextZeroBit nrDentryInBlock bitStart
      if nrDentryInBlock ≤ zeroStart then nrDentryInBlock
      else
        let zeroEnd := blk.bitmap.findNextBit nrDentryInBlock zeroStart
        if slots ≤ zeroEnd - zeroStart then zeroStart
        else if nrDentryInBlock ≤ zeroEnd + 1 then nrDentryInBlock
        else roomForFilenameFrom blk slots rounds (zeroEnd + 1)

/-- `room_for_filename`. -/
@[irreducible] def roomForFilename (blk : DentryBlock) (slots : Nat) : Nat :=
  roomForFilenameFrom blk slots (nrDentryInBlock + 1) 0

/-- The part of `__f2fs_add_link` after `add_dentry` that fills the entry and marks its slots. -/
def DentryBlock.addDentry (blk : DentryBlock) (bitPos : Nat) (name : FileName)
    (inode : InodeRef) : DentryBlock where
  bitmap := blk.bitmap.setRange bitPos (getDentrySlots name.bytes.length)
  dentry := Function.update blk.dentry bitPos (dirEntryOf name inode)
  filename := fun i =>
    if 8 * bitPos ≤ i ∧ i < 8 * bitPos + name.bytes.length then
      name.bytes.getD (i - 8 * bitPos) 0
    else blk.filename i

/-- The part of `f2fs_delete_entry` that clears the slots of an entry. -/
def DentryBlock.clearDentry (blk : DentryBlock) (bitPos : Nat) : DentryBlock :=
  { blk with
    bitmap := blk.bitmap.clearRange bitPos (getDentrySlots (blk.dentry bitPos).nameLen) }

/-! ## What a block holds -/

/-- The slots that a name takes. -/
def slotsOf (record : FileName × InodeRef) : Nat := getDentrySlots record.1.bytes.length

theorem slotsOf_pos (record : FileName × InodeRef) : 0 < slotsOf record := by
  have pos := record.1.pos
  rw [slotsOf, getDentrySlots]
  omega

theorem length_le_slots (record : FileName × InodeRef) :
    record.1.bytes.length ≤ 8 * slotsOf record := by
  rw [slotsOf, getDentrySlots]
  omega

@[simp] theorem nameLen_dirEntryOf (name : FileName) (inode : InodeRef) :
    (dirEntryOf name inode).nameLen = name.bytes.length := by
  have le := name.le
  rw [dirEntryOf]
  exact Nat.mod_eq_of_lt (by omega)

/-- The relation `held`, from first slots to names and inodes, is what the block holds. -/
structure BlockHolds (blk : DentryBlock) (held : Nat → FileName × InodeRef → Prop) : Prop where
  packs : SlotPacking.Packs slotsOf nrDentryInBlock blk.bitmap held
  entry : ∀ {bitPos record}, held bitPos record →
    blk.dentry bitPos = dirEntryOf record.1 record.2
  spelled : ∀ {bitPos record}, held bitPos record →
    blk.readName bitPos record.1.bytes.length = record.1.bytes

theorem blockHolds_zero : BlockHolds .zero fun _ _ => False where
  packs := SlotPacking.packs_empty _ _
  entry := False.elim
  spelled := False.elim

namespace BlockHolds

variable {blk : DentryBlock} {held : Nat → FileName × InodeRef → Prop}

theorem congr (holds : BlockHolds blk held) {other : Nat → FileName × InodeRef → Prop}
    (same : ∀ bitPos record, other bitPos record ↔ held bitPos record) :
    BlockHolds blk other where
  packs := holds.packs.congr same
  entry also := holds.entry ((same _ _).mp also)
  spelled also := holds.spelled ((same _ _).mp also)

/-- The length recorded in an entry gives the slots that it takes. -/
theorem stride (holds : BlockHolds blk held) {bitPos : Nat} {record : FileName × InodeRef}
    (here : held bitPos record) :
    getDentrySlots (blk.dentry bitPos).nameLen = slotsOf record := by
  rw [holds.entry here, nameLen_dirEntryOf, slotsOf]

/-- The comparison of `find_in_block` at the start of an entry decides whether it has the name. -/
theorem matches_iff (holds : BlockHolds blk held) {bitPos : Nat} {record : FileName × InodeRef}
    (here : held bitPos record) (name : FileName) :
    (earlyMatchName name.bytes.length (f2fsDentryHash name) (blk.dentry bitPos) = true ∧
      blk.readName bitPos name.bytes.length = name.bytes) ↔ record.1 = name := by
  rw [holds.entry here]
  constructor
  · rintro ⟨early, spelled⟩
    have length : record.1.bytes.length = name.bytes.length := by
      simp only [earlyMatchName, nameLen_dirEntryOf, Bool.and_eq_true, beq_iff_eq] at early
      exact early.1
    have stored := holds.spelled here
    rw [length, spelled] at stored
    exact FileName.ext stored.symm
  · intro same
    subst same
    refine ⟨?_, holds.spelled here⟩
    simp [earlyMatchName, dirEntryOf, Nat.mod_eq_of_lt (show record.1.bytes.length < 65536 from
      lt_of_le_of_lt record.1.le (by norm_num))]

/-- What `find_in_block` finds from a boundary on. -/
theorem findInBlockFrom_spec (holds : BlockHolds blk held) (name : FileName) (rounds : Nat) :
    ∀ bitPos maxLen maxSlots, nrDentryInBlock < bitPos + rounds →
      SlotPacking.Boundary slotsOf held bitPos →
      (∀ pos, (findInBlockFrom blk name (f2fsDentryHash name) rounds bitPos maxLen maxSlots).1 =
        some pos → ∃ inode, held pos (name, inode)) ∧
      ((findInBlockFrom blk name (f2fsDentryHash name) rounds bitPos maxLen maxSlots).1 = none →
        ∀ pos inode, bitPos ≤ pos → ¬ held pos (name, inode)) := by
  induction rounds with
  | zero =>
      intro bitPos maxLen maxSlots enough _
      refine ⟨fun pos found => by simp [findInBlockFrom] at found, fun _ pos inode late here => ?_⟩
      have inside := holds.packs.inside here
      omega
  | succ rounds ih =>
      intro bitPos maxLen maxSlots enough boundary
      rw [findInBlockFrom]
      split
      · next past =>
          refine ⟨fun pos found => by simp at found, fun _ pos inode late here => ?_⟩
          have inside := holds.packs.inside here
          have positive := holds.packs.positive here
          omega
      · next within =>
          split
          · next unset =>
              obtain ⟨found, missing⟩ := ih (bitPos + 1) _ maxSlots (by omega)
                (holds.packs.boundary_succ boundary unset)
              refine ⟨found, fun none pos inode late here => ?_⟩
              by_cases first : pos = bitPos
              · have isSet := holds.packs.marked_start here
                rw [first, unset] at isSet
                cases isSet
              · exact missing none pos inode (by omega) here
          · next isSet =>
              obtain ⟨record, here⟩ := holds.packs.start_of_boundary boundary (by omega)
                (by simpa using isSet)
              split
              · next same =>
                  rw [holds.matches_iff here] at same
                  refine ⟨fun pos found => ?_, fun none => by simp at none⟩
                  obtain rfl : bitPos = pos := by simpa using found
                  exact ⟨record.2, same ▸ here⟩
              · next differs =>
                  rw [holds.matches_iff here] at differs
                  have positive := slotsOf_pos record
                  rw [holds.stride here]
                  obtain ⟨found, missing⟩ := ih (bitPos + slotsOf record) _ _ (by omega)
                    (holds.packs.boundary_after here)
                  refine ⟨found, fun none pos inode late also => ?_⟩
                  rcases holds.packs.apart here also with ⟨rfl, rfl⟩ | past | earlier
                  · exact differs rfl
                  · exact missing none pos inode past also
                  · have positive' := slotsOf_pos (name, inode)
                    omega

/-- `find_in_block` returns a slot exactly when an entry with the name starts there. -/
theorem findInBlock_some (holds : BlockHolds blk held) {name : FileName} {maxSlots pos : Nat}
    (found : (findInBlock blk name maxSlots (f2fsDentryHash name)).1 = some pos) :
    ∃ inode, held pos (name, inode) := by
  rw [findInBlock] at found
  exact (holds.findInBlockFrom_spec name _ 0 0 maxSlots (by omega)
    SlotPacking.boundary_zero).1 pos found

theorem findInBlock_none (holds : BlockHolds blk held) {name : FileName} {maxSlots : Nat}
    (missing : (findInBlock blk name maxSlots (f2fsDentryHash name)).1 = none) (pos : Nat)
    (inode : InodeRef) : ¬ held pos (name, inode) := by
  rw [findInBlock] at missing
  exact (holds.findInBlockFrom_spec name _ 0 0 maxSlots (by omega)
    SlotPacking.boundary_zero).2 missing pos inode (Nat.zero_le pos)

end BlockHolds

/-- The run that `room_for_filename` returns is clear and lies in the block. -/
theorem roomForFilenameFrom_spec (blk : DentryBlock) (slots rounds : Nat) :
    ∀ bitStart, roomForFilenameFrom blk slots rounds bitStart < nrDentryInBlock →
      roomForFilenameFrom blk slots rounds bitStart + slots ≤ nrDentryInBlock ∧
      ∀ bit, roomForFilenameFrom blk slots rounds bitStart ≤ bit →
        bit < roomForFilenameFrom blk slots rounds bitStart + slots → blk.bitmap bit = false := by
  induction rounds with
  | zero =>
      intro bitStart found
      simp [roomForFilenameFrom] at found
  | succ rounds ih =>
      intro bitStart found
      rw [roomForFilenameFrom] at found ⊢
      dsimp only at found ⊢
      split at found
      · omega
      · next free =>
          rw [if_neg free]
          split at found
          · next room =>
              rw [if_pos room]
              have top := BitMap.findNext_le true blk.bitmap nrDentryInBlock
                (blk.bitmap.findNextZeroBit nrDentryInBlock bitStart)
              change blk.bitmap.findNextBit nrDentryInBlock
                (blk.bitmap.findNextZeroBit nrDentryInBlock bitStart) ≤ nrDentryInBlock at top
              have later : blk.bitmap.findNextZeroBit nrDentryInBlock bitStart ≤
                  blk.bitmap.findNextBit nrDentryInBlock
                    (blk.bitmap.findNextZeroBit nrDentryInBlock bitStart) :=
                BitMap.le_findNext (by omega)
              refine ⟨by omega, fun bit low high => ?_⟩
              have unset := BitMap.findNext_skipped low (show bit < blk.bitmap.findNextBit
                nrDentryInBlock (blk.bitmap.findNextZeroBit nrDentryInBlock bitStart) by omega)
              simpa using unset
          · next narrow =>
              rw [if_neg narrow]
              split at found
              · omega
              · next more =>
                  rw [if_neg more]
                  exact ih _ found

theorem roomForFilename_spec {blk : DentryBlock} {slots : Nat}
    (found : roomForFilename blk slots < nrDentryInBlock) :
    roomForFilename blk slots + slots ≤ nrDentryInBlock ∧
      ∀ bit, roomForFilename blk slots ≤ bit → bit < roomForFilename blk slots + slots →
        blk.bitmap bit = false := by
  rw [roomForFilename] at found ⊢
  exact roomForFilenameFrom_spec blk slots _ 0 found

/-! ## What a change leaves -/

theorem readName_addDentry_self (blk : DentryBlock) (bitPos : Nat) (name : FileName)
    (inode : InodeRef) :
    (blk.addDentry bitPos name inode).readName bitPos name.bytes.length = name.bytes := by
  apply List.ext_getElem
  · simp [DentryBlock.readName]
  · intro i left right
    have small : i < name.bytes.length := right
    simp [DentryBlock.readName, DentryBlock.addDentry, small]

theorem readName_addDentry_of_apart (blk : DentryBlock) {bitPos other len : Nat}
    {name : FileName} {inode : InodeRef}
    (apart : 8 * other + len ≤ 8 * bitPos ∨ 8 * bitPos + name.bytes.length ≤ 8 * other) :
    (blk.addDentry bitPos name inode).readName other len = blk.readName other len := by
  apply List.map_congr_left
  intro i member
  have small := List.mem_range.mp member
  simp only [DentryBlock.addDentry]
  rw [if_neg]
  omega

/-- Adding an entry in a clear run of slots adds it to what the block holds. -/
theorem BlockHolds.addDentry {blk : DentryBlock} {held : Nat → FileName × InodeRef → Prop}
    (holds : BlockHolds blk held) {bitPos : Nat} {name : FileName} {inode : InodeRef}
    (inside : bitPos + getDentrySlots name.bytes.length ≤ nrDentryInBlock)
    (free : ∀ bit, bitPos ≤ bit → bit < bitPos + getDentrySlots name.bytes.length →
      blk.bitmap bit = false) :
    BlockHolds (blk.addDentry bitPos name inode)
      fun pos record => held pos record ∨ (pos = bitPos ∧ record = (name, inode)) := by
  have ne_of_held : ∀ {pos record}, held pos record → pos ≠ bitPos := by
    rintro pos record here rfl
    have unset := free pos (Nat.le_refl _) (Nat.lt_add_of_pos_right (slotsOf_pos (name, inode)))
    rw [holds.packs.marked_start here] at unset
    cases unset
  have packs := @SlotPacking.Packs.insert _ _ _ _ _ holds.packs bitPos (name, inode)
    (slotsOf_pos _) inside free
  refine ⟨packs, ?_, ?_⟩
  · rintro pos record (here | ⟨rfl, rfl⟩)
    · simp [DentryBlock.addDentry, ne_of_held here, holds.entry here]
    · simp [DentryBlock.addDentry]
  · rintro pos record (here | ⟨rfl, rfl⟩)
    · rw [readName_addDentry_of_apart, holds.spelled here]
      have fits := length_le_slots record
      have fits' := length_le_slots (name, inode)
      dsimp only at fits'
      rcases packs.apart (Or.inl here) (Or.inr ⟨rfl, rfl⟩) with ⟨same, _⟩ | before | after
      · exact absurd same (ne_of_held here)
      · exact Or.inl (by omega)
      · exact Or.inr (by omega)
    · exact readName_addDentry_self _ _ _ _

/-- Clearing an entry takes it away from what the block holds. -/
theorem BlockHolds.clearDentry {blk : DentryBlock} {held : Nat → FileName × InodeRef → Prop}
    (holds : BlockHolds blk held) {bitPos : Nat} {record : FileName × InodeRef}
    (here : held bitPos record) :
    BlockHolds (blk.clearDentry bitPos) fun pos other => held pos other ∧ pos ≠ bitPos where
  packs := by
    rw [DentryBlock.clearDentry, holds.stride here]
    exact holds.packs.remove here
  entry also := holds.entry also.1
  spelled also := holds.spelled also.1

end StorageStack.F2fs
