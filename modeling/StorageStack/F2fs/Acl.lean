import StorageStack.BlockDevice

/-!
# Access control lists on disk

`f2fs_acl_to_disk` stores an entry in eight bytes if it names a user or a group and in four bytes
otherwise; `f2fs_acl_from_disk` computes the number of entries from the length alone.  The second part
follows an inherited list from `posix_acl_create` through `f2fs_init_acl` to `f2fs_get_acl`.
Allocations succeed; a failed one returns `-ENOMEM` before it has done anything.
-/

namespace StorageStack.F2fs.Acl

/-- `ACL_USER_OBJ`. -/
def aclUserObj : UInt16 := 0x01

/-- `ACL_USER`. -/
def aclUser : UInt16 := 0x02

/-- `ACL_GROUP_OBJ`. -/
def aclGroupObj : UInt16 := 0x04

/-- `ACL_GROUP`. -/
def aclGroup : UInt16 := 0x08

/-- `ACL_MASK`. -/
def aclMask : UInt16 := 0x10

/-- `ACL_OTHER`. -/
def aclOther : UInt16 := 0x20

/-- `F2FS_ACL_VERSION`. -/
def f2fsAclVersion : UInt32 := 0x0001

def einval : Int := 22
def eacces : Int := 13

/-- The tags of `struct f2fs_acl_entry`. -/
def Named (tag : UInt16) : Prop := tag = aclUser ∨ tag = aclGroup

/-- The tags of `struct f2fs_acl_entry_short`. -/
def Unnamed (tag : UInt16) : Prop :=
  tag = aclUserObj ∨ tag = aclGroupObj ∨ tag = aclMask ∨ tag = aclOther

instance (tag : UInt16) : Decidable (Named tag) := inferInstanceAs (Decidable (_ ∨ _))

instance (tag : UInt16) : Decidable (Unnamed tag) := inferInstanceAs (Decidable (_ ∨ _ ∨ _ ∨ _))

/-- `struct posix_acl_entry`.  Only an entry that names a user or a group has an id; in `init_user_ns`
the kernel's ids are those on disk. -/
structure AclEntry where
  tag : UInt16
  perm : UInt16
  id : UInt32
  id_of_unnamed : ¬Named tag → id = 0
deriving DecidableEq

/-! ## The conversions -/

/-- `f2fs_acl_size`. -/
def f2fsAclSize (count : Nat) : Nat :=
  if count ≤ 4 then 4 + count * 4 else 4 + 4 * 4 + (count - 4) * 8

/-- The conversion to `int`. -/
def toInt (word : Nat) : Int :=
  if word % 2 ^ 32 < 2 ^ 31 then (word % 2 ^ 32 : Nat) else (word % 2 ^ 32 : Nat) - 2 ^ 32

/-- `f2fs_acl_count`; the differences are taken in `size_t`, and the second one is read as a signed
number. -/
def f2fsAclCount (size : Nat) : Int :=
  let size := (size + (2 ^ 64 - 4)) % 2 ^ 64
  let s := (size + (2 ^ 64 - 16)) % 2 ^ 64
  if 2 ^ 63 ≤ s then
    if size % 4 ≠ 0 then -1 else toInt (size / 4)
  else
    if s % 8 ≠ 0 then -1 else toInt (s / 8 + 4)

/-- The bytes of a word of 16 bits. -/
def le16Bytes (word : UInt16) : List UInt8 :=
  [Page.wordBytes word.toNat 0, Page.wordBytes word.toNat 1]

/-- The bytes of a word of 32 bits. -/
def le32Bytes (word : UInt32) : List UInt8 :=
  [Page.wordBytes word.toNat 0, Page.wordBytes word.toNat 1, Page.wordBytes word.toNat 2,
    Page.wordBytes word.toNat 3]

/-- The bytes of an entry. -/
def AclEntry.bytes (entry : AclEntry) : List UInt8 :=
  le16Bytes entry.tag ++ le16Bytes entry.perm ++
    if Named entry.tag then le32Bytes entry.id else []

/-- The loop of `f2fs_acl_to_disk`. -/
def writeEntries : List AclEntry → Except Int (List UInt8)
  | [] => .ok []
  | entry :: entries =>
      if Named entry.tag ∨ Unnamed entry.tag then
        (writeEntries entries).map (entry.bytes ++ ·)
      else .error (-einval)

/-- `f2fs_acl_to_disk`: the bytes written, and the size reported. -/
def f2fsAclToDisk (acl : List AclEntry) : Except Int (List UInt8 × Nat) :=
  (writeEntries acl).map fun bytes => (le32Bytes f2fsAclVersion ++ bytes, f2fsAclSize acl.length)

/-- The loop of `f2fs_acl_from_disk`: the entries with the address after the last of them, and the end
of the last read. -/
def readEntries (memory : Page) (stop : Nat) : Nat → Nat → Option (List AclEntry × Nat) × Nat
  | 0, entry => (some ([], entry), 0)
  | count + 1, entry =>
      if stop < entry then (none, 0)
      else
        let tag := memory.le16 entry
        let perm := memory.le16 (entry + 2)
        if named : Named tag then
          let rest := readEntries memory stop count (entry + 8)
          (rest.1.map fun parsed =>
            (⟨tag, perm, memory.le32 (entry + 4), fun unnamed => absurd named unnamed⟩ :: parsed.1,
              parsed.2), max (entry + 8) rest.2)
        else if Unnamed tag then
          let rest := readEntries memory stop count (entry + 4)
          (rest.1.map fun parsed => (⟨tag, perm, 0, fun _ => rfl⟩ :: parsed.1, parsed.2),
            max (entry + 4) rest.2)
        else (none, entry + 4)

/-- `f2fs_acl_from_disk` of a value at the start of the memory: an error or the list, which is `NULL`
if there are no entries, and the end of the last read. -/
def f2fsAclFromDisk (memory : Page) (size : Nat) : Except Int (Option (List AclEntry)) × Nat :=
  if memory.le32 0 ≠ f2fsAclVersion then (.error (-einval), 4)
  else
    let count := f2fsAclCount size
    if count < 0 then (.error (-einval), 4)
    else if count = 0 then (.ok none, 4)
    else
      match readEntries memory size count.toNat 4 with
      | (some (entries, entry), readTo) =>
          (if entry = size then .ok (some entries) else .error (-einval), max 4 readTo)
      | (none, readTo) => (.error (-einval), max 4 readTo)

/-! ## Words and entries in memory -/

/-- The value lies at the start of the memory. -/
def Holds (memory : Page) (value : List UInt8) : Prop :=
  ∀ index (inside : index < value.length), memory index = value[index]

theorem le16_eq {memory : Page} {offset : Nat} {word : UInt16}
    (low : memory offset = Page.wordBytes word.toNat 0)
    (high : memory (offset + 1) = Page.wordBytes word.toNat 1) : memory.le16 offset = word := by
  apply UInt16.toNat_inj.mp
  have bound := word.toNat_lt
  rw [Page.le16, low, high]
  simp only [Page.wordBytes, UInt16.toNat_ofNat', UInt8.toNat_ofNat']
  omega

theorem le32_eq {memory : Page} {offset : Nat} {word : UInt32}
    (same : ∀ index < 4, memory (offset + index) = Page.wordBytes word.toNat index) :
    memory.le32 offset = word := by
  rw [← Page.le32_putLe32 memory offset word]
  apply Page.le32_congr
  intro index inside
  rw [same index inside, Page.putLe32, Page.copy_inside inside, Nat.zero_add]

@[simp] theorem le16Bytes_le16 (memory : Page) (offset : Nat) :
    le16Bytes (memory.le16 offset) = [memory offset, memory (offset + 1)] := by
  have low := (memory offset).toNat_lt
  have high := (memory (offset + 1)).toNat_lt
  simp only [le16Bytes, Page.wordBytes, Page.le16, UInt16.toNat_ofNat', List.cons.injEq, and_true]
  constructor <;> apply UInt8.toNat_inj.mp <;> simp only [UInt8.toNat_ofNat'] <;> omega

@[simp] theorem le32Bytes_le32 (memory : Page) (offset : Nat) :
    le32Bytes (memory.le32 offset) =
      [memory offset, memory (offset + 1), memory (offset + 2), memory (offset + 3)] := by
  have first := (memory offset).toNat_lt
  have second := (memory (offset + 1)).toNat_lt
  have third := (memory (offset + 2)).toNat_lt
  have fourth := (memory (offset + 3)).toNat_lt
  simp only [le32Bytes, Page.wordBytes, Page.le32, UInt32.toNat_ofNat', List.cons.injEq, and_true]
  refine ⟨?_, ?_, ?_, ?_⟩ <;> apply UInt8.toNat_inj.mp <;> simp only [UInt8.toNat_ofNat'] <;> omega

theorem AclEntry.length_bytes (entry : AclEntry) :
    entry.bytes.length = if Named entry.tag then 8 else 4 := by
  unfold bytes
  split <;> rfl

theorem Holds.drop_four {memory : Page} {value : List UInt8} (holds : Holds memory value)
    (position : Nat) (inside : position + 4 ≤ value.length) :
    value.drop position = memory position :: memory (position + 1) :: memory (position + 2) ::
      memory (position + 3) :: value.drop (position + 4) := by
  rw [List.drop_eq_getElem_cons (by omega), List.drop_eq_getElem_cons (by omega),
    List.drop_eq_getElem_cons (by omega), List.drop_eq_getElem_cons (by omega),
    holds position (by omega), holds (position + 1) (by omega), holds (position + 2) (by omega),
    holds (position + 3) (by omega)]

/-- What is read at an entry of the value is the entry. -/
theorem Holds.read_entry {memory : Page} {value rest : List UInt8} {entry : AclEntry}
    {position : Nat} (holds : Holds memory value) (inside : position ≤ value.length)
    (same : value.drop position = entry.bytes ++ rest) :
    memory.le16 position = entry.tag ∧ memory.le16 (position + 2) = entry.perm ∧
      (Named entry.tag → memory.le32 (position + 4) = entry.id) ∧
      value.drop (position + entry.bytes.length) = rest ∧
      position + entry.bytes.length ≤ value.length := by
  have length := congrArg List.length same
  rw [List.length_append, List.length_drop] at length
  have at_least : 4 ≤ entry.bytes.length := by
    rw [entry.length_bytes]
    split <;> decide
  have first := holds.drop_four position (by omega)
  rw [same, AclEntry.bytes, le16Bytes, le16Bytes] at first
  simp only [List.cons_append, List.nil_append, List.cons.injEq] at first
  refine ⟨le16_eq first.1.symm first.2.1.symm, le16_eq first.2.2.1.symm first.2.2.2.1.symm, ?_, ?_,
    by omega⟩
  · intro named
    have eight : entry.bytes.length = 8 := by rw [entry.length_bytes, if_pos named]
    have last := first.2.2.2.2
    rw [if_pos named, holds.drop_four (position + 4) (by omega), le32Bytes] at last
    simp only [List.cons_append, List.cons.injEq] at last
    apply le32_eq
    intro index small
    interval_cases index
    · exact last.1.symm
    · exact last.2.1.symm
    · exact last.2.2.1.symm
    · exact last.2.2.2.1.symm
  · rw [← List.drop_drop, same, List.drop_left]

/-- The eight bytes at a position are those of the entry read there. -/
theorem Holds.named_entry {memory : Page} {value : List UInt8} {position : Nat}
    (holds : Holds memory value) (inside : position + 8 ≤ value.length)
    (named : Named (memory.le16 position)) :
    value.drop position = AclEntry.bytes ⟨memory.le16 position, memory.le16 (position + 2),
      memory.le32 (position + 4), fun unnamed => absurd named unnamed⟩ ++
        value.drop (position + 8) := by
  rw [holds.drop_four position (by omega), holds.drop_four (position + 4) (by omega),
    AclEntry.bytes, if_pos named, le16Bytes_le16, le16Bytes_le16, le32Bytes_le32]
  rfl

/-- The four bytes at a position are those of the entry read there. -/
theorem Holds.unnamed_entry {memory : Page} {value : List UInt8} {position : Nat}
    (holds : Holds memory value) (inside : position + 4 ≤ value.length)
    (unnamed : ¬Named (memory.le16 position)) :
    value.drop position = AclEntry.bytes ⟨memory.le16 position, memory.le16 (position + 2), 0,
      fun _ => rfl⟩ ++ value.drop (position + 4) := by
  rw [holds.drop_four position inside, AclEntry.bytes, if_neg unnamed, le16Bytes_le16, le16Bytes_le16]
  rfl

theorem holds_self (value : List UInt8) : Holds (fun index => value.getD index 0) value :=
  fun index inside => by simp [List.getD, List.getElem?_eq_getElem inside]

/-- Entries can be told apart in what they are stored as. -/
theorem AclEntry.bytes_append_inj {left right : AclEntry} {leftRest rightRest : List UInt8}
    (same : left.bytes ++ leftRest = right.bytes ++ rightRest) :
    left = right ∧ leftRest = rightRest := by
  have holds := holds_self (left.bytes ++ leftRest)
  have first : (left.bytes ++ leftRest).drop 0 = left.bytes ++ leftRest := rfl
  have second : (left.bytes ++ leftRest).drop 0 = right.bytes ++ rightRest := same
  obtain ⟨leftTag, leftPerm, leftId, leftRest_eq, -⟩ := holds.read_entry (Nat.zero_le _) first
  obtain ⟨rightTag, rightPerm, rightId, rightRest_eq, -⟩ := holds.read_entry (Nat.zero_le _) second
  have tag := leftTag.symm.trans rightTag
  have perm := leftPerm.symm.trans rightPerm
  have id : left.id = right.id := by
    by_cases named : Named left.tag
    · exact (leftId named).symm.trans (rightId (tag ▸ named))
    · rw [left.id_of_unnamed named, right.id_of_unnamed (tag ▸ named)]
  have entries : left = right := by
    cases left
    cases right
    simp_all
  subst entries
  exact ⟨rfl, leftRest_eq.symm.trans rightRest_eq⟩

/-! ## Reading behind the value -/

/-- The tag of the entry at the start of some bytes. -/
def tagOf (body : List UInt8) : UInt16 := Page.le16 (fun index => body.getD index 0) 0

/-- The bytes end before the given number of entries does: behind fewer whole entries there is less
than one. -/
def Cut (count : Nat) (body : List UInt8) : Prop :=
  ∃ (entries : List AclEntry) (tail : List UInt8), body = entries.flatMap AclEntry.bytes ++ tail ∧
    (∀ entry ∈ entries, Named entry.tag ∨ Unnamed entry.tag) ∧ entries.length < count ∧
    (tail.length < 4 ∨ Named (tagOf tail) ∧ tail.length < 8)

theorem tagOf_bytes (entry : AclEntry) (rest : List UInt8) :
    tagOf (entry.bytes ++ rest) = entry.tag :=
  ((holds_self _).read_entry (Nat.zero_le _) rfl).1

theorem cut_of_short {count : Nat} {body : List UInt8}
    (short : body.length < 4 ∨ Named (tagOf body) ∧ body.length < 8) : Cut (count + 1) body :=
  ⟨[], body, rfl, (fun _ mem => nomatch mem), Nat.succ_pos _, short⟩

/-- A whole entry counts as one. -/
theorem cut_bytes {count : Nat} {entry : AclEntry} {rest : List UInt8}
    (known : Named entry.tag ∨ Unnamed entry.tag) :
    Cut (count + 1) (entry.bytes ++ rest) ↔ Cut count rest := by
  constructor
  · rintro ⟨entries, tail, same, all_known, fewer, short⟩
    cases entries with
    | nil =>
        obtain rfl : entry.bytes ++ rest = tail := same
        rw [tagOf_bytes, List.length_append, entry.length_bytes] at short
        rcases short with short | ⟨named, short⟩
        · split at short <;> omega
        · rw [if_pos named] at short
          omega
    | cons first entries =>
        rw [List.flatMap_cons, List.append_assoc] at same
        obtain ⟨rfl, rfl⟩ := AclEntry.bytes_append_inj same
        exact ⟨entries, tail, rfl, fun other mem => all_known other (List.mem_cons_of_mem _ mem),
          by simpa using fewer, short⟩
  · rintro ⟨entries, tail, rfl, all_known, fewer, short⟩
    refine ⟨entry :: entries, tail, by simp, ?_, by simpa using fewer, short⟩
    exact List.forall_mem_cons.mpr ⟨known, all_known⟩

theorem Holds.tagOf_drop {memory : Page} {value : List UInt8} {position : Nat}
    (holds : Holds memory value) (inside : position + 4 ≤ value.length) :
    tagOf (value.drop position) = memory.le16 position := by
  rw [holds.drop_four position inside]
  rfl

theorem readEntries_past {memory : Page} {stop count position : Nat} (past : stop < position) :
    readEntries memory stop (count + 1) position = (none, 0) := by
  rw [readEntries, if_pos past]

theorem readEntries_named {memory : Page} {stop count position : Nat} (inside : position ≤ stop)
    (named : Named (memory.le16 position)) :
    readEntries memory stop (count + 1) position =
      ((readEntries memory stop count (position + 8)).1.map fun parsed =>
        (⟨memory.le16 position, memory.le16 (position + 2), memory.le32 (position + 4),
          fun unnamed => absurd named unnamed⟩ :: parsed.1, parsed.2),
        max (position + 8) (readEntries memory stop count (position + 8)).2) := by
  rw [readEntries, if_neg (by omega)]
  exact dif_pos named

theorem readEntries_unnamed {memory : Page} {stop count position : Nat} (inside : position ≤ stop)
    (named : ¬Named (memory.le16 position)) (unnamed : Unnamed (memory.le16 position)) :
    readEntries memory stop (count + 1) position =
      ((readEntries memory stop count (position + 4)).1.map fun parsed =>
        (⟨memory.le16 position, memory.le16 (position + 2), 0, fun _ => rfl⟩ :: parsed.1, parsed.2),
        max (position + 4) (readEntries memory stop count (position + 4)).2) := by
  rw [readEntries, if_neg (by omega)]
  exact (dif_neg named).trans (if_pos unnamed)

theorem readEntries_unknown {memory : Page} {stop count position : Nat} (inside : position ≤ stop)
    (named : ¬Named (memory.le16 position)) (unnamed : ¬Unnamed (memory.le16 position)) :
    readEntries memory stop (count + 1) position = (none, position + 4) := by
  rw [readEntries, if_neg (by omega)]
  exact (dif_neg named).trans (if_neg unnamed)

/-- The loop reads behind the value once less than an entry is left. -/
theorem readEntries_of_short {memory : Page} {stop count position : Nat} (inside : position ≤ stop)
    (short : stop < position + 4 ∨ Named (memory.le16 position) ∧ stop < position + 8) :
    stop < (readEntries memory stop (count + 1) position).2 := by
  by_cases named : Named (memory.le16 position)
  · rw [readEntries_named inside named]
    exact lt_max_of_lt_left (by omega)
  · have outside : stop < position + 4 := short.resolve_right fun other => named other.1
    by_cases unnamed : Unnamed (memory.le16 position)
    · rw [readEntries_unnamed inside named unnamed]
      exact lt_max_of_lt_left outside
    · rw [readEntries_unknown inside named unnamed]
      exact outside

/-- Bytes that begin with an unknown tag are not cut. -/
theorem not_cut_of_unknown {count : Nat} {body : List UInt8} (four : 4 ≤ body.length)
    (named : ¬Named (tagOf body)) (unnamed : ¬Unnamed (tagOf body)) : ¬Cut count body := by
  rintro ⟨entries, tail, rfl, all_known, -, short⟩
  cases entries with
  | nil =>
      rcases short with short | ⟨other, -⟩
      · exact absurd four (by simpa using short)
      · exact named other
  | cons first entries =>
      rw [List.flatMap_cons, List.append_assoc, tagOf_bytes] at named unnamed
      rcases all_known first List.mem_cons_self with other | other
      · exact named other
      · exact unnamed other

/-- The loop stays inside the value exactly if the value is not cut. -/
theorem readEntries_inside_iff {memory : Page} {value : List UInt8} (holds : Holds memory value)
    (count : Nat) {position : Nat} (inside : position ≤ value.length) :
    (readEntries memory value.length count position).2 ≤ value.length ↔
      ¬Cut count (value.drop position) := by
  induction count generalizing position with
  | zero => simp [readEntries, Cut]
  | succ count ih =>
      have length : (value.drop position).length = value.length - position := List.length_drop
      rcases Nat.lt_or_ge value.length (position + 4) with outside | four
      · have cut : Cut (count + 1) (value.drop position) := cut_of_short (.inl (by omega))
        simp only [cut, not_true_eq_false, iff_false, Nat.not_le]
        exact readEntries_of_short inside (.inl outside)
      · have tag := holds.tagOf_drop four
        by_cases named : Named (memory.le16 position)
        · rcases Nat.lt_or_ge value.length (position + 8) with outside | eight
          · have cut : Cut (count + 1) (value.drop position) :=
              cut_of_short (.inr ⟨tag ▸ named, by omega⟩)
            simp only [cut, not_true_eq_false, iff_false, Nat.not_le]
            exact readEntries_of_short inside (.inr ⟨named, outside⟩)
          · rw [readEntries_named inside named, max_le_iff, ih eight,
              holds.named_entry eight named, cut_bytes (.inl named)]
            exact and_iff_right eight
        · by_cases unnamed : Unnamed (memory.le16 position)
          · rw [readEntries_unnamed inside named unnamed, max_le_iff, ih four,
              holds.unnamed_entry four named, cut_bytes (.inr unnamed)]
            exact and_iff_right four
          · rw [readEntries_unknown inside named unnamed]
            have whole : ¬Cut (count + 1) (value.drop position) :=
              not_cut_of_unknown (by omega) (tag ▸ named) (tag ▸ unnamed)
            exact iff_of_true four whole

/-! ## The round trips -/

/-- The entries that end the value are read back. -/
theorem readEntries_bytes {memory : Page} {value : List UInt8} (holds : Holds memory value)
    {entries : List AclEntry} (known : ∀ entry ∈ entries, Named entry.tag ∨ Unnamed entry.tag)
    {position : Nat} (inside : position ≤ value.length)
    (same : value.drop position = entries.flatMap AclEntry.bytes) :
    (readEntries memory value.length entries.length position).1 = some (entries, value.length) := by
  induction entries generalizing position with
  | nil =>
      have length := congrArg List.length same
      rw [List.length_drop, List.flatMap_nil, List.length_nil] at length
      rw [List.length_nil, readEntries, show position = value.length by omega]
  | cons entry entries ih =>
      rw [List.flatMap_cons] at same
      obtain ⟨tag, perm, id, rest, inside'⟩ := holds.read_entry inside same
      have later := ih (fun other mem => known other (List.mem_cons_of_mem _ mem)) inside' rest
      rw [entry.length_bytes] at later
      obtain ⟨entryTag, entryPerm, entryId, no_id⟩ := entry
      subst tag perm
      by_cases named : Named (memory.le16 position)
      · rw [if_pos named] at later
        rw [List.length_cons, readEntries_named inside named, later]
        simp [id named]
      · rw [if_neg named] at later
        have unnamed := (known _ List.mem_cons_self).resolve_left named
        rw [List.length_cons, readEntries_unnamed inside named unnamed, later]
        simp [no_id named]

/-- Entries that are read up to the end of the value are what the value is made of. -/
theorem readEntries_eq_some {memory : Page} {value : List UInt8} (holds : Holds memory value)
    {count : Nat} {entries : List AclEntry} {position last : Nat}
    (parsed : (readEntries memory value.length count position).1 = some (entries, last)) :
    entries.length = count ∧ position ≤ last ∧ last ≤ position + 8 * count ∧
      (∀ entry ∈ entries, Named entry.tag ∨ Unnamed entry.tag) ∧
      (last = value.length → value.drop position = entries.flatMap AclEntry.bytes) := by
  induction count generalizing entries position with
  | zero =>
      simp only [readEntries, Option.some.injEq, Prod.mk.injEq] at parsed
      obtain ⟨rfl, rfl⟩ := parsed
      exact ⟨rfl, le_rfl, le_rfl, (fun _ mem => nomatch mem), fun whole => by simp [whole]⟩
  | succ count ih =>
      rcases Nat.lt_or_ge value.length position with past | inside
      · rw [readEntries_past past] at parsed
        cases parsed
      by_cases named : Named (memory.le16 position)
      · rw [readEntries_named inside named] at parsed
        obtain ⟨⟨rest, final⟩, read, same⟩ := Option.map_eq_some_iff.mp parsed
        obtain ⟨rfl, rfl⟩ := Prod.mk.inj same
        obtain ⟨length, low, high, known, whole⟩ := ih read
        refine ⟨by simp [length], by omega, by omega,
          List.forall_mem_cons.mpr ⟨.inl named, known⟩, fun reached => ?_⟩
        rw [List.flatMap_cons, ← whole reached]
        exact holds.named_entry (by omega) named
      by_cases unnamed : Unnamed (memory.le16 position)
      · rw [readEntries_unnamed inside named unnamed] at parsed
        obtain ⟨⟨rest, final⟩, read, same⟩ := Option.map_eq_some_iff.mp parsed
        obtain ⟨rfl, rfl⟩ := Prod.mk.inj same
        obtain ⟨length, low, high, known, whole⟩ := ih read
        refine ⟨by simp [length], by omega, by omega,
          List.forall_mem_cons.mpr ⟨.inr unnamed, known⟩, fun reached => ?_⟩
        rw [List.flatMap_cons, ← whole reached]
        exact holds.unnamed_entry (by omega) named
      · rw [readEntries_unknown inside named unnamed] at parsed
        cases parsed

theorem toInt_eq_or (word : Nat) : toInt word = word ∨ toInt word ≤ (word : Int) - 2 ^ 32 := by
  unfold toInt
  rcases Nat.lt_or_ge (word % 2 ^ 32) (2 ^ 31) with low | high
  · rw [if_pos low]
    omega
  · rw [if_neg (by omega)]
    omega

theorem toInt_of_lt {word : Nat} (small : word < 2 ^ 31) : toInt word = word := by
  rw [toInt, if_pos (by omega), Nat.mod_eq_of_lt (by omega)]

theorem f2fsAclCount_of_lt {size : Nat} (header : 4 ≤ size) (few : size < 20) :
    f2fsAclCount size = if (size - 4) % 4 ≠ 0 then -1 else toInt ((size - 4) / 4) := by
  have first : (size + (2 ^ 64 - 4)) % 2 ^ 64 = size - 4 := by omega
  have negative : 2 ^ 63 ≤ (size - 4 + (2 ^ 64 - 16)) % 2 ^ 64 := by omega
  simp only [f2fsAclCount, first]
  rw [if_pos negative]

theorem f2fsAclCount_of_le {size : Nat} (many : 20 ≤ size) (fits : size < 2 ^ 63) :
    f2fsAclCount size = if (size - 20) % 8 ≠ 0 then -1 else toInt ((size - 20) / 8 + 4) := by
  have first : (size + (2 ^ 64 - 4)) % 2 ^ 64 = size - 4 := by omega
  have second : (size - 4 + (2 ^ 64 - 16)) % 2 ^ 64 = size - 20 := by omega
  simp only [f2fsAclCount, first, second]
  rw [if_neg (by omega)]

/-- The number of entries is found from the size that is reported for it. -/
theorem f2fsAclCount_f2fsAclSize {count : Nat} (small : count < 2 ^ 31) :
    f2fsAclCount (f2fsAclSize count) = count := by
  rcases Nat.lt_or_ge count 4 with few | many
  · have size : f2fsAclSize count = 4 + count * 4 := if_pos few.le
    rw [size, f2fsAclCount_of_lt (by omega) (by omega), if_neg (by omega),
      show (4 + count * 4 - 4) / 4 = count by omega, toInt_of_lt small]
  · have size : f2fsAclSize count = 20 + (count - 4) * 8 := by
      unfold f2fsAclSize
      split <;> omega
    rw [size, f2fsAclCount_of_le (by omega) (by omega), if_neg (by omega),
      show (20 + (count - 4) * 8 - 20) / 8 + 4 = count by omega, toInt_of_lt small]

/-- A value whose bytes can be as many entries as its length gives has the size reported for them. -/
theorem f2fsAclSize_f2fsAclCount {size count : Nat} (fits : size < 2 ^ 63) (header : 4 ≤ size)
    (found : f2fsAclCount size = count) (enough : size ≤ 4 + 8 * count) :
    f2fsAclSize count = size := by
  rcases Nat.lt_or_ge size 20 with few | many
  · rw [f2fsAclCount_of_lt header few] at found
    split at found
    · omega
    · rw [toInt_of_lt (by omega)] at found
      rw [f2fsAclSize, if_pos (by omega)]
      omega
  · rw [f2fsAclCount_of_le many fits] at found
    split at found
    · omega
    · rcases toInt_eq_or ((size - 20) / 8 + 4) with exact | wrapped
      · unfold f2fsAclSize
        split <;> omega
      · omega

theorem length_flatMap_bytes (entries : List AclEntry) :
    (entries.flatMap AclEntry.bytes).length =
      4 * entries.length + 4 * entries.countP fun entry => Named entry.tag := by
  induction entries with
  | nil => rfl
  | cons entry entries ih =>
      rw [List.flatMap_cons, List.length_append, ih, entry.length_bytes, List.length_cons,
        List.countP_cons]
      by_cases named : Named entry.tag <;> simp only [named, if_true, if_false, decide_true,
        decide_false, Bool.false_eq_true] <;> omega

/-- The known entries, counted by their tags. -/
theorem length_eq_counts {entries : List AclEntry}
    (known : ∀ entry ∈ entries, Named entry.tag ∨ Unnamed entry.tag) :
    entries.length = (entries.countP fun entry => Named entry.tag) +
      (entries.map AclEntry.tag).count aclUserObj + (entries.map AclEntry.tag).count aclGroupObj +
      (entries.map AclEntry.tag).count aclMask + (entries.map AclEntry.tag).count aclOther := by
  induction entries with
  | nil => rfl
  | cons entry entries ih =>
      have later := ih fun other mem => known other (List.mem_cons_of_mem _ mem)
      rw [List.length_cons, List.countP_cons, List.map_cons, List.count_cons, List.count_cons,
        List.count_cons, List.count_cons, later]
      rcases known entry List.mem_cons_self with (tag | tag) | tag | tag | tag | tag <;>
        simp [tag, Named, aclUser, aclGroup, aclUserObj, aclGroupObj, aclMask, aclOther] <;> omega

theorem writeEntries_of_known {entries : List AclEntry}
    (known : ∀ entry ∈ entries, Named entry.tag ∨ Unnamed entry.tag) :
    writeEntries entries = .ok (entries.flatMap AclEntry.bytes) := by
  induction entries with
  | nil => rfl
  | cons entry entries ih =>
      rw [writeEntries, if_pos (known entry List.mem_cons_self),
        ih fun other mem => known other (List.mem_cons_of_mem _ mem)]
      rfl

theorem f2fsAclToDisk_of_known {acl : List AclEntry}
    (known : ∀ entry ∈ acl, Named entry.tag ∨ Unnamed entry.tag) :
    f2fsAclToDisk acl =
      .ok (le32Bytes f2fsAclVersion ++ acl.flatMap AclEntry.bytes, f2fsAclSize acl.length) := by
  rw [f2fsAclToDisk, writeEntries_of_known known]
  rfl

/-- What a list accepted by `posix_acl_valid` looks like: one entry each for the owner, the group and
the others, at most one mask, and a mask if a user or a group is named.  `posix_acl_alloc` takes the
number of entries as an `int`. -/
structure AclRules (valid : List AclEntry → Prop) : Prop where
  length_lt : ∀ acl, valid acl → acl.length < 2 ^ 31
  known : ∀ acl, valid acl → ∀ entry ∈ acl, Named entry.tag ∨ Unnamed entry.tag
  userObj : ∀ acl, valid acl → (acl.map AclEntry.tag).count aclUserObj = 1
  groupObj : ∀ acl, valid acl → (acl.map AclEntry.tag).count aclGroupObj = 1
  other : ∀ acl, valid acl → (acl.map AclEntry.tag).count aclOther = 1
  mask : ∀ acl, valid acl → (acl.map AclEntry.tag).count aclMask ≤ 1
  mask_of_named : ∀ acl, valid acl → (∃ entry ∈ acl, Named entry.tag) →
    (acl.map AclEntry.tag).count aclMask = 1

/-- The bytes of a valid list are as many as `f2fs_acl_size` says. -/
theorem AclRules.length_bytes {valid : List AclEntry → Prop} (rules : AclRules valid)
    {acl : List AclEntry} (accepted : valid acl) :
    4 + (acl.flatMap AclEntry.bytes).length = f2fsAclSize acl.length := by
  have counts := length_eq_counts (rules.known acl accepted)
  rw [rules.userObj acl accepted, rules.groupObj acl accepted, rules.other acl accepted] at counts
  have mask := rules.mask acl accepted
  rw [length_flatMap_bytes]
  rcases Nat.eq_zero_or_pos (acl.countP fun entry => Named entry.tag) with unnamed | named
  · rw [f2fsAclSize, if_pos (by omega)]
    omega
  · obtain ⟨entry, mem, of_entry⟩ := List.countP_pos_iff.mp named
    rw [rules.mask_of_named acl accepted ⟨entry, mem, of_decide_eq_true of_entry⟩] at counts
    rw [f2fsAclSize, if_neg (by omega)]
    omega

theorem Holds.version_iff {memory : Page} {value : List UInt8} (holds : Holds memory value)
    (header : 4 ≤ value.length) :
    memory.le32 0 = f2fsAclVersion ↔ value.take 4 = le32Bytes f2fsAclVersion := by
  have first : value = memory 0 :: memory 1 :: memory 2 :: memory 3 :: value.drop 4 := by
    simpa using holds.drop_four 0 (by omega)
  have bytes : value.take 4 = le32Bytes (memory.le32 0) := by
    rw [le32Bytes_le32, first]
    rfl
  rw [bytes]
  refine ⟨fun same => by rw [same], fun same => ?_⟩
  rw [le32Bytes_le32, le32Bytes] at same
  simp only [List.cons.injEq, and_true] at same
  apply le32_eq
  intro index small
  interval_cases index
  · exact same.1
  · exact same.2.1
  · exact same.2.2.1
  · exact same.2.2.2

/-- A valid list is read back from the value that is stored for it. -/
theorem AclRules.round_trip {valid : List AclEntry → Prop} (rules : AclRules valid)
    {acl : List AclEntry} (accepted : valid acl) {memory : Page} {value : List UInt8} {size : Nat}
    (stored : f2fsAclToDisk acl = .ok (value, size)) (holds : Holds memory value) :
    value.length = size ∧ (f2fsAclFromDisk memory size).1 = .ok (some acl) := by
  rw [f2fsAclToDisk_of_known (rules.known acl accepted)] at stored
  obtain ⟨rfl, rfl⟩ := Prod.mk.inj (Except.ok.inj stored)
  have length := rules.length_bytes accepted
  have whole : (le32Bytes f2fsAclVersion ++ acl.flatMap AclEntry.bytes).length =
      f2fsAclSize acl.length := by
    rw [List.length_append, ← length]
    rfl
  refine ⟨whole, ?_⟩
  have header : 4 ≤ (le32Bytes f2fsAclVersion ++ acl.flatMap AclEntry.bytes).length := by
    rw [whole, ← length]
    exact Nat.le_add_right 4 _
  have version : memory.le32 0 = f2fsAclVersion := (holds.version_iff header).mpr rfl
  have positive : 0 < acl.length := by
    have counts := length_eq_counts (rules.known acl accepted)
    rw [rules.userObj acl accepted] at counts
    omega
  have count := f2fsAclCount_f2fsAclSize (rules.length_lt acl accepted)
  have read := readEntries_bytes holds (rules.known acl accepted) header rfl
  rw [whole] at read
  rw [f2fsAclFromDisk, if_neg (by simp [version])]
  simp only [count]
  rw [if_neg (by omega), if_neg (by omega), Int.toNat_natCast]
  generalize readEntries memory (f2fsAclSize acl.length) acl.length 4 = parsed at read
  obtain ⟨entries, readTo⟩ := parsed
  subst read
  simp

/-- The string ends before its version does, or before the entries that its length stands for. -/
def Overrun (value : List UInt8) : Prop :=
  value.length < 4 ∨ value.take 4 = le32Bytes f2fsAclVersion ∧
    Cut (f2fsAclCount value.length).toNat (value.drop 4)

/-- What the version and the number of entries decide. -/
theorem f2fsAclFromDisk_cases (memory : Page) (size : Nat) :
    (memory.le32 0 ≠ f2fsAclVersion ∧ f2fsAclFromDisk memory size = (.error (-einval), 4)) ∨
      memory.le32 0 = f2fsAclVersion ∧ (f2fsAclCount size < 0 ∧
          f2fsAclFromDisk memory size = (.error (-einval), 4) ∨
        f2fsAclCount size = 0 ∧ f2fsAclFromDisk memory size = (.ok none, 4) ∨
        0 < f2fsAclCount size ∧
          f2fsAclFromDisk memory size =
            match readEntries memory size (f2fsAclCount size).toNat 4 with
            | (some (entries, entry), readTo) =>
                (if entry = size then .ok (some entries) else .error (-einval), max 4 readTo)
            | (none, readTo) => (.error (-einval), max 4 readTo)) := by
  rw [f2fsAclFromDisk]
  generalize f2fsAclCount size = count
  by_cases version : memory.le32 0 = f2fsAclVersion
  · rw [if_neg (not_not.mpr version)]
    refine .inr ⟨version, ?_⟩
    rcases Int.lt_trichotomy count 0 with negative | rfl | positive
    · exact .inl ⟨negative, if_pos negative⟩
    · exact .inr (.inl ⟨rfl, rfl⟩)
    · refine .inr (.inr ⟨positive, ?_⟩)
      rw [if_neg (by omega), if_neg (by omega)]
  · exact .inl ⟨version, if_pos version⟩

/-- A string is read inside its bounds exactly if it is not overrun. -/
theorem f2fsAclFromDisk_inside_iff {memory : Page} {value : List UInt8}
    (holds : Holds memory value) :
    (f2fsAclFromDisk memory value.length).2 ≤ value.length ↔ ¬Overrun value := by
  have read_header : 4 ≤ (f2fsAclFromDisk memory value.length).2 := by
    rcases f2fsAclFromDisk_cases memory value.length with
      ⟨-, same⟩ | ⟨-, ⟨-, same⟩ | ⟨-, same⟩ | ⟨-, same⟩⟩ <;> rw [same]
    split <;> exact le_max_left ..
  rcases Nat.lt_or_ge value.length 4 with short | header
  · simp only [Overrun, short, true_or, not_true_eq_false, iff_false, Nat.not_le]
    omega
  have version := holds.version_iff header
  have overrun (same : memory.le32 0 = f2fsAclVersion) :
      Overrun value ↔ Cut (f2fsAclCount value.length).toNat (value.drop 4) := by
    simp [Overrun, version.mp same, header]
  rcases f2fsAclFromDisk_cases memory value.length with
    ⟨other, same⟩ | ⟨current, ⟨negative, same⟩ | ⟨zero, same⟩ | ⟨-, same⟩⟩
  · rw [same]
    simp only [ne_eq, version] at other
    simp [Overrun, other, header]
  · rw [same, overrun current, ← readEntries_inside_iff holds _ header,
      Int.toNat_of_nonpos negative.le]
    simp [readEntries, header]
  · rw [same, overrun current, ← readEntries_inside_iff holds _ header, zero]
    simp [readEntries, header]
  · rw [same, overrun current, ← readEntries_inside_iff holds _ header]
    generalize readEntries memory value.length (f2fsAclCount value.length).toNat 4 = read
    obtain ⟨_ | parsed, readTo⟩ := read <;> simp [header]

/-- A list is returned if the entries up to the end of the string are as many as its length gives. -/
theorem f2fsAclFromDisk_eq_some {memory : Page} {size : Nat} {acl : List AclEntry}
    (found : (f2fsAclFromDisk memory size).1 = .ok (some acl)) :
    memory.le32 0 = f2fsAclVersion ∧ 0 < f2fsAclCount size ∧
      (readEntries memory size (f2fsAclCount size).toNat 4).1 = some (acl, size) := by
  rcases f2fsAclFromDisk_cases memory size with
    ⟨-, same⟩ | ⟨current, ⟨-, same⟩ | ⟨-, same⟩ | ⟨positive, same⟩⟩ <;> rw [same] at found
  · cases found
  · cases found
  · cases found
  · refine ⟨current, positive, ?_⟩
    generalize readEntries memory size (f2fsAclCount size).toNat 4 = read at found ⊢
    obtain ⟨_ | ⟨entries, last⟩, readTo⟩ := read
    · cases found
    · by_cases whole : last = size
      · simp_all
      · simp [whole] at found

/-- A list is returned only for the string that is stored for it. -/
theorem f2fsAclToDisk_of_fromDisk {memory : Page} {value : List UInt8} {acl : List AclEntry}
    (holds : Holds memory value) (fits : value.length < 2 ^ 63)
    (found : (f2fsAclFromDisk memory value.length).1 = .ok (some acl)) :
    f2fsAclToDisk acl = .ok (value, value.length) := by
  obtain ⟨current, positive, read⟩ := f2fsAclFromDisk_eq_some found
  obtain ⟨length, header, high, known, whole⟩ := readEntries_eq_some holds read
  have count : f2fsAclCount value.length = (acl.length : Nat) := by
    rw [length, Int.toNat_of_nonneg positive.le]
  have size := f2fsAclSize_f2fsAclCount fits header count (by rw [length]; exact high)
  rw [f2fsAclToDisk_of_known known, ← whole rfl, ← (holds.version_iff header).mp current, size,
    List.take_append_drop]

/-! ## Inheriting a list -/

/-- The attributes of an inode by their name index; `none` is an attribute that is not there. -/
abbrev Xattrs := Nat → Option (List UInt8)

/-- `F2FS_XATTR_INDEX_POSIX_ACL_ACCESS`. -/
def indexAccess : Nat := 2

/-- `F2FS_XATTR_INDEX_POSIX_ACL_DEFAULT`. -/
def indexDefault : Nat := 3

/-- `ACL_TYPE_ACCESS` and `ACL_TYPE_DEFAULT`. -/
inductive AclType where
  | access
  | default
deriving DecidableEq

/-- The name index of a type. -/
def AclType.nameIndex : AclType → Nat
  | .access => indexAccess
  | .default => indexDefault

/-- What the functions read and write of an inode: its mode, `i_acl_mode` while `FI_ACL_MODE` is set,
its attributes, and the cached lists. -/
structure Inode where
  mode : Nat
  aclMode : Option Nat
  xattrs : Xattrs
  cachedAcl : AclType → Option (Option (List AclEntry))

/-- `S_ISDIR`. -/
def isDir (mode : Nat) : Prop := mode &&& 0o170000 = 0o040000

instance (mode : Nat) : Decidable (isDir mode) := inferInstanceAs (Decidable (_ = _))

/-- What `posix_acl_create` returns: an error, or the mode with the default and the access list. -/
structure Inherited where
  mode : Nat
  defaultAcl : Option (List AclEntry)
  acl : Option (List AclEntry)

/-- The functions called: `posix_acl_create` on the directory, `posix_acl_equiv_mode` with its result
and the mode, and `f2fs_setxattr` with its error and the attributes it leaves. -/
structure Callees where
  posixAclCreate : Nat → Except Int Inherited
  posixAclEquivMode : List AclEntry → Nat → Int × Nat
  setxattr : Xattrs → Nat → Option (List UInt8) → Int × Xattrs

/-- `f2fs_setxattr` that succeeds has changed its attribute and no other. -/
def Callees.Stores (callees : Callees) : Prop :=
  ∀ xattrs index value, (callees.setxattr xattrs index value).1 = 0 →
    (callees.setxattr xattrs index value).2 = Function.update xattrs index value

/-- `f2fs_get_acl`; the value is read into allocated memory. -/
def f2fsGetAcl (inode : Inode) (type : AclType) (memory : List UInt8 → Page) :
    Except Int (Option (List AclEntry)) :=
  match inode.xattrs type.nameIndex with
  | none => .ok none
  | some [] => .ok none
  | some value => (f2fsAclFromDisk (memory value) value.length).1

/-- The value of the attribute for a list; no list is the removal of the attribute. -/
def aclValue : Option (List AclEntry) → Except Int (Option (List UInt8))
  | none => .ok none
  | some acl => (f2fsAclToDisk acl).map fun stored => some stored.1

/-- The end of `__f2fs_set_acl`: the attribute, the mode that `f2fs_setxattr` takes from `i_acl_mode`,
and the cache. -/
def storeAcl (callees : Callees) (inode : Inode) (type : AclType) (acl : Option (List AclEntry)) :
    Int × Inode :=
  match aclValue acl with
  | .error error => (error, { inode with aclMode := none })
  | .ok value =>
      let (error, xattrs) := callees.setxattr inode.xattrs type.nameIndex value
      (error, { inode with
        xattrs := xattrs
        mode := if error = 0 then inode.aclMode.getD inode.mode else inode.mode
        aclMode := none
        cachedAcl :=
          if error = 0 then Function.update inode.cachedAcl type (some acl) else inode.cachedAcl })

/-- `__f2fs_set_acl`. -/
def f2fsSetAcl (callees : Callees) (inode : Inode) (type : AclType)
    (acl : Option (List AclEntry)) : Int × Inode :=
  match type, acl with
  | .access, some entries =>
      let (error, mode) := callees.posixAclEquivMode entries inode.mode
      if error < 0 then (error, inode)
      else
        storeAcl callees { inode with mode := mode, aclMode := some mode } .access
          (if error = 0 then none else some entries)
  | .access, none => storeAcl callees inode .access none
  | .default, acl =>
      if isDir inode.mode then storeAcl callees inode .default acl
      else (if acl.isSome then -eacces else 0, inode)

/-- `f2fs_init_acl`; the access list is stored only after an error. -/
def f2fsInitAcl (callees : Callees) (inode : Inode) : Int × Inode :=
  match callees.posixAclCreate inode.mode with
  | .error error => (error, inode)
  | .ok inherited =>
      let inode := { inode with mode := inherited.mode }
      let (error, inode) :=
        match inherited.defaultAcl with
        | none => (0, inode)
        | some acl => f2fsSetAcl callees inode .default (some acl)
      match inherited.acl with
      | none => (error, inode)
      | some acl => if error ≠ 0 then f2fsSetAcl callees inode .access (some acl) else (error, inode)

section Inheriting

variable {valid : List AclEntry → Prop} {callees : Callees} {memory : List UInt8 → Page}

/-- The lists computed by `posix_acl_create` are valid. -/
def Inherited.Valid (valid : List AclEntry → Prop) (inherited : Inherited) : Prop :=
  (∀ acl ∈ inherited.defaultAcl, valid acl) ∧ ∀ acl ∈ inherited.acl, valid acl

/-- A list whose conversion is the attribute is returned. -/
theorem AclRules.getAcl_of_stored (rules : AclRules valid)
    (holds : ∀ value, Holds (memory value) value) {acl : List AclEntry} (accepted : valid acl)
    {value : List UInt8} {size : Nat} (stored : f2fsAclToDisk acl = .ok (value, size))
    {inode : Inode} {type : AclType} (there : inode.xattrs type.nameIndex = some value) :
    f2fsGetAcl inode type memory = .ok (some acl) := by
  obtain ⟨length, read⟩ := rules.round_trip accepted stored (holds value)
  rw [← length] at read
  have nonempty : value ≠ [] := by
    rw [f2fsAclToDisk_of_known (rules.known acl accepted)] at stored
    obtain ⟨rfl, -⟩ := Prod.mk.inj (Except.ok.inj stored)
    exact List.cons_ne_nil _ _
  cases value with
  | nil => exact absurd rfl nonempty
  | cons byte bytes =>
      rw [f2fsGetAcl, there]
      exact read

theorem AclType.nameIndex_ne {left right : AclType} (apart : left ≠ right) :
    left.nameIndex ≠ right.nameIndex := by
  cases left <;> cases right <;> simp_all [nameIndex, indexAccess, indexDefault]

/-- A list that has been stored is returned, and the list of the other type is left alone. -/
theorem AclRules.getAcl_storeAcl (rules : AclRules valid) (stores : callees.Stores)
    (holds : ∀ value, Holds (memory value) value) {acl : Option (List AclEntry)}
    (accepted : ∀ entries ∈ acl, valid entries) {inode : Inode} {type : AclType}
    (success : (storeAcl callees inode type acl).1 = 0) :
    f2fsGetAcl (storeAcl callees inode type acl).2 type memory = .ok acl ∧
      ∀ other ≠ type, f2fsGetAcl (storeAcl callees inode type acl).2 other memory =
        f2fsGetAcl inode other memory := by
  obtain ⟨value, converted⟩ : ∃ value, aclValue acl = .ok value := by
    cases acl with
    | none => exact ⟨none, rfl⟩
    | some entries =>
        rw [aclValue, f2fsAclToDisk_of_known (rules.known entries (accepted entries rfl))]
        exact ⟨_, rfl⟩
  have xattrs : (storeAcl callees inode type acl).2.xattrs =
      Function.update inode.xattrs type.nameIndex value := by
    simp only [storeAcl, converted] at success ⊢
    exact stores _ _ _ success
  constructor
  · have there := congrFun xattrs type.nameIndex
    rw [Function.update_self] at there
    cases acl with
    | none =>
        obtain rfl : none = value := Except.ok.inj converted
        rw [f2fsGetAcl, there]
    | some entries =>
        have known := rules.known entries (accepted entries rfl)
        rw [aclValue, f2fsAclToDisk_of_known known] at converted
        obtain rfl := Except.ok.inj converted
        exact rules.getAcl_of_stored holds (accepted entries rfl) (f2fsAclToDisk_of_known known)
          there
  · intro other apart
    have there := congrFun xattrs other.nameIndex
    rw [Function.update_of_ne (AclType.nameIndex_ne apart)] at there
    rw [f2fsGetAcl, f2fsGetAcl, there]

theorem AclRules.getAcl_setAcl_default (rules : AclRules valid) (stores : callees.Stores)
    (holds : ∀ value, Holds (memory value) value) {acl : List AclEntry} (accepted : valid acl)
    {inode : Inode} (success : (f2fsSetAcl callees inode .default (some acl)).1 = 0) :
    f2fsGetAcl (f2fsSetAcl callees inode .default (some acl)).2 .default memory = .ok (some acl) ∧
      f2fsGetAcl (f2fsSetAcl callees inode .default (some acl)).2 .access memory =
        f2fsGetAcl inode .access memory := by
  by_cases directory : isDir inode.mode
  · simp only [f2fsSetAcl, if_pos directory] at success ⊢
    have all_accepted : ∀ entries ∈ some acl, valid entries := by
      rintro _ ⟨⟩
      exact accepted
    have stored := rules.getAcl_storeAcl stores holds all_accepted success
    exact ⟨stored.1, stored.2 .access (by decide)⟩
  · simp only [f2fsSetAcl, if_neg directory] at success
    cases success

theorem AclRules.getAcl_setAcl_access (rules : AclRules valid) (stores : callees.Stores)
    (holds : ∀ value, Holds (memory value) value) {acl : List AclEntry} (accepted : valid acl)
    {inode : Inode} (success : (f2fsSetAcl callees inode .access (some acl)).1 = 0) :
    f2fsGetAcl (f2fsSetAcl callees inode .access (some acl)).2 .default memory =
        f2fsGetAcl inode .default memory ∧
      f2fsGetAcl (f2fsSetAcl callees inode .access (some acl)).2 .access memory =
        .ok (if (callees.posixAclEquivMode acl inode.mode).1 = 0 then none else some acl) := by
  simp only [f2fsSetAcl] at success ⊢
  by_cases refused : (callees.posixAclEquivMode acl inode.mode).1 < 0
  · rw [if_pos refused] at success
    exact absurd success refused.ne
  · rw [if_neg refused] at success ⊢
    have stored := rules.getAcl_storeAcl stores holds
      (by split <;> rintro _ ⟨⟩; exact accepted) success
    exact ⟨stored.2 .default (by decide), stored.1⟩

/-- Storing the default list failed and has left it readable, and the access list has then been
stored. -/
def LeftReadable (callees : Callees) (inode : Inode) (inherited : Inherited)
    (memory : List UInt8 → Page) : Prop :=
  ∃ defaultAcl acl, inherited.defaultAcl = some defaultAcl ∧ inherited.acl = some acl ∧
    let (error, left) := f2fsSetAcl callees { inode with mode := inherited.mode } .default
      (some defaultAcl)
    error ≠ 0 ∧ f2fsGetAcl left .default memory = .ok (some defaultAcl) ∧
      (callees.posixAclEquivMode acl left.mode).1 ≠ 0

/-- After `f2fs_init_acl` has returned 0, both lists are what `posix_acl_create` computed exactly if it
computed no access list, or if a failure to store the default list has left it readable. -/
theorem AclRules.f2fsInitAcl_iff (rules : AclRules valid) (stores : callees.Stores)
    (holds : ∀ value, Holds (memory value) value) {inode : Inode} {inherited : Inherited}
    (fresh : ∀ type : AclType, inode.xattrs type.nameIndex = none)
    (created : callees.posixAclCreate inode.mode = .ok inherited) (computed : inherited.Valid valid)
    (success : (f2fsInitAcl callees inode).1 = 0) :
    (f2fsGetAcl (f2fsInitAcl callees inode).2 .default memory = .ok inherited.defaultAcl ∧
        f2fsGetAcl (f2fsInitAcl callees inode).2 .access memory = .ok inherited.acl) ↔
      inherited.acl = none ∨ LeftReadable callees inode inherited memory := by
  obtain ⟨mode, defaultAcl, acl⟩ := inherited
  have empty (type : AclType) :
      f2fsGetAcl { inode with mode := mode } type memory = .ok none := by
    rw [f2fsGetAcl, fresh type]
  rw [f2fsInitAcl, created] at success ⊢
  cases defaultAcl with
  | none =>
      cases acl with
      | none => exact iff_of_true ⟨empty _, empty _⟩ (.inl rfl)
      | some entries =>
          refine iff_of_false ?_ ?_
          · rintro ⟨-, read⟩
            cases (empty .access).symm.trans read
          · rintro (missing | ⟨_, _, missing, -⟩) <;> cases missing
  | some defaults =>
      cases acl with
      | none =>
          refine iff_of_true ?_ (.inl rfl)
          have stored := rules.getAcl_setAcl_default stores holds (computed.1 defaults rfl) success
          exact ⟨stored.1, stored.2.trans (empty _)⟩
      | some entries =>
          by_cases failed : (f2fsSetAcl callees { inode with mode := mode } .default
            (some defaults)).1 = 0
          · have stored := rules.getAcl_setAcl_default stores holds (computed.1 defaults rfl) failed
            refine iff_of_false ?_ ?_
            · rintro ⟨-, read⟩
              simp only [failed, ne_eq, not_true_eq_false, if_false] at read
              cases (stored.2.trans (empty _)).symm.trans read
            · rintro (missing | ⟨_, _, same, -, wrong, -⟩)
              · cases missing
              · cases same
                exact wrong failed
          · simp only [ne_eq, failed, not_false_eq_true, if_true] at success ⊢
            have stored := rules.getAcl_setAcl_access stores holds (computed.2 entries rfl) success
            rw [stored.1, stored.2]
            simp [LeftReadable, failed]

/-- A valid list is stored in as many bytes as reported and read back from them.  A string is read
inside its bounds exactly if it is not overrun, and yields a list only if it is what is stored for the
list.  An inherited list is returned exactly as `f2fsInitAcl_iff` says. -/
theorem acl_survives_storage_iff (rules : AclRules valid) :
    (∀ acl, valid acl → ∃ value size, f2fsAclToDisk acl = .ok (value, size) ∧ value.length = size ∧
        ∀ memory, Holds memory value → (f2fsAclFromDisk memory size).1 = .ok (some acl)) ∧
      (∀ value memory, Holds memory value →
        ((f2fsAclFromDisk memory value.length).2 ≤ value.length ↔ ¬Overrun value) ∧
          (value.length < 2 ^ 63 → ∀ acl,
            (f2fsAclFromDisk memory value.length).1 = .ok (some acl) →
              f2fsAclToDisk acl = .ok (value, value.length))) ∧
      ∀ (callees : Callees) (inode : Inode) (inherited : Inherited) (memory : List UInt8 → Page),
        callees.Stores → (∀ value, Holds (memory value) value) →
        (∀ type : AclType, inode.xattrs type.nameIndex = none) →
        callees.posixAclCreate inode.mode = .ok inherited → inherited.Valid valid →
        (f2fsInitAcl callees inode).1 = 0 →
        ((f2fsGetAcl (f2fsInitAcl callees inode).2 .default memory = .ok inherited.defaultAcl ∧
            f2fsGetAcl (f2fsInitAcl callees inode).2 .access memory = .ok inherited.acl) ↔
          inherited.acl = none ∨ LeftReadable callees inode inherited memory) := by
  refine ⟨fun acl accepted => ?_, fun value memory holds => ⟨f2fsAclFromDisk_inside_iff holds, ?_⟩, ?_⟩
  · have stored := f2fsAclToDisk_of_known (rules.known acl accepted)
    have whole := (rules.round_trip accepted stored (holds_self _)).1
    exact ⟨_, _, stored, whole, fun memory holds => (rules.round_trip accepted stored holds).2⟩
  · exact fun fits acl found => f2fsAclToDisk_of_fromDisk holds fits found
  · exact fun callees inode inherited memory stores holds fresh created computed success =>
      rules.f2fsInitAcl_iff stores holds fresh created computed success

/-- A list that lets one more user write. -/
def oneUser : List AclEntry :=
  [⟨aclUserObj, 6, 0, by decide⟩, ⟨aclUser, 6, 1000, by decide⟩, ⟨aclGroupObj, 4, 0, by decide⟩,
    ⟨aclMask, 6, 0, by decide⟩, ⟨aclOther, 4, 0, by decide⟩]

theorem aclRules_oneUser : AclRules (· = oneUser) where
  length_lt := by rintro _ rfl; decide
  known := by rintro _ rfl; decide
  userObj := by rintro _ rfl; decide
  groupObj := by rintro _ rfl; decide
  other := by rintro _ rfl; decide
  mask := by rintro _ rfl; decide
  mask_of_named := by rintro _ rfl _; decide

theorem acl_survives_storage_iff_oneUser :
    ∃ value size, f2fsAclToDisk oneUser = .ok (value, size) ∧ value.length = size ∧
      ∀ memory, Holds memory value → (f2fsAclFromDisk memory size).1 = .ok (some oneUser) :=
  (acl_survives_storage_iff aclRules_oneUser).1 oneUser rfl

/-- A new file in a directory whose default list is `oneUser`, in a store with room. -/
def inOneUserDir : Callees where
  posixAclCreate := fun mode => .ok { mode := mode, defaultAcl := none, acl := some oneUser }
  posixAclEquivMode := fun _ mode => (1, mode)
  setxattr := fun xattrs index value => (0, Function.update xattrs index value)

/-- A regular file without attributes. -/
def newFile : Inode :=
  { mode := 0o100664, aclMode := none, xattrs := fun _ => none, cachedAcl := fun _ => none }

/-- The version and an entry of eight bytes that names a user. -/
def oneNamedEntry : List UInt8 := [1, 0, 0, 0, 2, 0, 7, 0, 0, 0, 0, 0]

/-- A string of one long entry, whose length stands for two short ones, is read past its end.  A new
file does not get the list that it inherits. -/
theorem acl_not_survives_storage :
    oneNamedEntry.length <
        (f2fsAclFromDisk (fun index => oneNamedEntry.getD index 0) oneNamedEntry.length).2 ∧
      (f2fsInitAcl inOneUserDir newFile).1 = 0 ∧
      f2fsGetAcl (f2fsInitAcl inOneUserDir newFile).2 .access (fun value index => value.getD index 0) =
        .ok none := by
  refine ⟨?_, rfl, rfl⟩
  decide

end Inheriting

end StorageStack.F2fs.Acl
