import StorageStack.BlockDevice

/-!
# The list of extended attributes

The entries of `xattr.h` lie one behind the other, each filled up to a multiple of four bytes, and a
zero word ends the list.  The walks of `xattr.c` over the bytes are walks over the list that the
bytes hold.
-/

namespace StorageStack
namespace F2fs
namespace Xattr

/-! ## Entries -/

/-- An attribute: `e_name_index`, the name and the value. -/
structure Attr where
  index : UInt8
  name : List UInt8
  value : List UInt8
  deriving DecidableEq, Repr

/-- `XATTR_ALIGN`. -/
def xattrAlign (size : Nat) : Nat := (size + 3) / 4 * 4

/-- The bytes of `struct f2fs_xattr_entry` with name and value. -/
def Attr.length (attr : Attr) : Nat := 4 + attr.name.length + attr.value.length

/-- The bytes of the entry of an attribute. -/
def Attr.size (attr : Attr) : Nat := xattrAlign attr.length

/-- The attribute fits the fields of an entry; its index is one of the handlers'. -/
structure Attr.Fits (attr : Attr) : Prop where
  index : attr.index ≠ 0
  name : attr.name.length ≤ 255
  value : attr.value.length < 2 ^ 16

/-- The bytes of the entries of a list. -/
def total (attrs : List Attr) : Nat := (attrs.map Attr.size).sum

@[simp] theorem total_nil : total [] = 0 := rfl

@[simp] theorem total_cons (attr : Attr) (attrs : List Attr) :
    total (attr :: attrs) = attr.size + total attrs := by
  simp [total]

@[simp] theorem total_append (left right : List Attr) :
    total (left ++ right) = total left + total right := by
  simp [total]

theorem le_xattrAlign (size : Nat) : size ≤ xattrAlign size := by
  rw [xattrAlign]
  omega

theorem four_dvd_xattrAlign (size : Nat) : 4 ∣ xattrAlign size := Nat.dvd_mul_left _ _

theorem Attr.length_le_size (attr : Attr) : attr.length ≤ attr.size := le_xattrAlign _

theorem Attr.four_le_length (attr : Attr) : 4 ≤ attr.length := by
  rw [Attr.length, Nat.add_assoc]
  exact Nat.le_add_right _ _

/-! ## Bytes -/

/-- Some bytes of a page. -/
def bytes (base : Page) (offset length : Nat) : List UInt8 :=
  (List.range length).map fun index => base (offset + index)

/-- `IS_XATTR_LAST_ENTRY`. -/
def isLast (base : Page) (offset : Nat) : Bool := base.le32 offset == 0

/-- `e_name_len`. -/
def nameLen (base : Page) (offset : Nat) : Nat := (base (offset + 1)).toNat

/-- `e_value_size`. -/
def valueSize (base : Page) (offset : Nat) : Nat := (base.le16 (offset + 2)).toNat

/-- `ENTRY_SIZE`. -/
def entrySize (base : Page) (offset : Nat) : Nat :=
  xattrAlign (4 + nameLen base offset + valueSize base offset)

/-- The attribute of the entry at an offset. -/
def attrAt (base : Page) (offset : Nat) : Attr where
  index := base offset
  name := bytes base (offset + 4) (nameLen base offset)
  value := bytes base (offset + 4 + nameLen base offset) (valueSize base offset)

@[simp] theorem length_bytes (base : Page) (offset length : Nat) :
    (bytes base offset length).length = length := by
  simp [bytes]

theorem getElem?_bytes {base : Page} {offset length index : Nat} (inside : index < length) :
    (bytes base offset length)[index]? = some (base (offset + index)) := by
  simp [bytes, inside]

theorem bytes_congr {base other : Page} {offset offset' length : Nat}
    (same : ∀ index < length, other (offset' + index) = base (offset + index)) :
    bytes other offset' length = bytes base offset length := by
  apply List.map_congr_left
  intro index mem
  exact same index (List.mem_range.1 mem)

theorem byte_eq_of_bytes_eq {base other : Page} {offset offset' length : Nat}
    (same : bytes other offset' length = bytes base offset length) (index : Nat)
    (inside : index < length) : other (offset' + index) = base (offset + index) := by
  have here := congrArg (·[index]?) same
  simp only [getElem?_bytes inside] at here
  exact Option.some.inj here

theorem bytes_eq_iff {base : Page} {offset : Nat} {word : List UInt8} :
    bytes base offset word.length = word ↔
      ∀ index, (inside : index < word.length) → base (offset + index) = word[index] := by
  constructor
  · intro same index inside
    have here := @getElem?_bytes base offset word.length index inside
    rw [same, List.getElem?_eq_getElem inside] at here
    exact (Option.some.inj here).symm
  · intro each
    apply List.ext_getElem (length_bytes _ _ _)
    intro index _ inside
    rw [← each index inside]
    simp [bytes]

@[simp] theorem attrAt_length (base : Page) (offset : Nat) :
    (attrAt base offset).length = 4 + nameLen base offset + valueSize base offset := by
  simp [Attr.length, attrAt]

@[simp] theorem attrAt_size (base : Page) (offset : Nat) :
    (attrAt base offset).size = entrySize base offset := by
  rw [Attr.size, attrAt_length, entrySize]

theorem isLast_iff {base : Page} {offset : Nat} :
    isLast base offset = true ↔ ∀ index < 4, base (offset + index) = 0 := by
  have zero_iff (byte : UInt8) : byte = 0 ↔ byte.toNat = 0 := by
    rw [← UInt8.toNat_inj]
    rfl
  rw [isLast, beq_iff_eq, ← UInt32.toNat_inj, Page.le32]
  have first := (base offset).toNat_lt
  have second := (base (offset + 1)).toNat_lt
  have third := (base (offset + 2)).toNat_lt
  have fourth := (base (offset + 3)).toNat_lt
  simp only [UInt32.toNat_ofNat', UInt32.toNat_zero]
  constructor
  · intro word index inside
    rw [zero_iff]
    have each : index = 0 ∨ index = 1 ∨ index = 2 ∨ index = 3 := by omega
    rcases each with rfl | rfl | rfl | rfl
    · rw [Nat.add_zero]
      omega
    · omega
    · omega
    · omega
  · intro zero
    have first := (zero_iff _).1 (zero 0 (by decide))
    have second := (zero_iff _).1 (zero 1 (by decide))
    have third := (zero_iff _).1 (zero 2 (by decide))
    have fourth := (zero_iff _).1 (zero 3 (by decide))
    rw [Nat.add_zero] at first
    omega

theorem isLast_of_zero {base : Page} {offset : Nat}
    (zero : ∀ index < 4, base (offset + index) = 0) : isLast base offset = true :=
  isLast_iff.2 zero

theorem not_isLast_of_index {base : Page} {offset : Nat} (index : base offset ≠ 0) :
    isLast base offset = false := by
  rw [← Bool.not_eq_true, isLast_iff]
  intro zero
  exact index (zero 0 (by decide))

/-- An attribute depends on the bytes of its entry only. -/
theorem attrAt_congr {base other : Page} {offset offset' : Nat}
    (same : ∀ index < (attrAt base offset).length,
      other (offset' + index) = base (offset + index)) :
    attrAt other offset' = attrAt base offset := by
  rw [attrAt_length] at same
  have header : ∀ index < 4, other (offset' + index) = base (offset + index) :=
    fun index inside => same index (by omega)
  have name : nameLen other offset' = nameLen base offset := by
    rw [nameLen, nameLen, header 1 (by decide)]
  have value : valueSize other offset' = valueSize base offset := by
    rw [valueSize, valueSize, Page.le16, Page.le16, header 2 (by decide), Nat.add_assoc,
      Nat.add_assoc, header 3 (by decide)]
  rw [attrAt, attrAt, name, value]
  congr 1
  · exact header 0 (by decide)
  · apply bytes_congr
    intro index inside
    rw [Nat.add_assoc, Nat.add_assoc]
    exact same (4 + index) (by omega)
  · apply bytes_congr
    intro index inside
    rw [Nat.add_assoc, Nat.add_assoc, Nat.add_assoc, Nat.add_assoc, ← Nat.add_assoc 4]
    exact same (4 + nameLen base offset + index) (by omega)

/-- The bytes of an entry without its padding are those of its attribute. -/
theorem byte_eq_of_attrAt_eq {base other : Page} {offset : Nat}
    (same : attrAt other offset = attrAt base offset) {index : Nat}
    (inside : index < (attrAt base offset).length) :
    other (offset + index) = base (offset + index) := by
  have nameLens : nameLen other offset = nameLen base offset := by
    simpa [attrAt] using congrArg (fun attr => attr.name.length) same
  have valueSizes : valueSize other offset = valueSize base offset := by
    simpa [attrAt] using congrArg (fun attr => attr.value.length) same
  have names : bytes other (offset + 4) (nameLen base offset) =
      bytes base (offset + 4) (nameLen base offset) := by
    simpa [attrAt, nameLens] using congrArg Attr.name same
  have values : bytes other (offset + 4 + nameLen base offset) (valueSize base offset) =
      bytes base (offset + 4 + nameLen base offset) (valueSize base offset) := by
    simpa [attrAt, nameLens, valueSizes] using congrArg Attr.value same
  rw [attrAt_length] at inside
  rcases Nat.lt_or_ge index 4 with header | behind
  · have each : index = 0 ∨ index = 1 ∨ index = 2 ∨ index = 3 := by omega
    have le16 : (other.le16 (offset + 2)).toNat = (base.le16 (offset + 2)).toNat := valueSizes
    simp only [Page.le16, UInt16.toNat_ofNat'] at le16
    have := (other (offset + 2)).toNat_lt
    have := (other (offset + 2 + 1)).toNat_lt
    have := (base (offset + 2)).toNat_lt
    have := (base (offset + 2 + 1)).toNat_lt
    rcases each with rfl | rfl | rfl | rfl
    · exact congrArg Attr.index same
    · exact UInt8.toNat_inj.1 nameLens
    · apply UInt8.toNat_inj.1
      omega
    · apply UInt8.toNat_inj.1
      rw [show offset + 3 = offset + 2 + 1 from rfl]
      omega
  · rcases Nat.lt_or_ge index (4 + nameLen base offset) with inName | inValue
    · have here := byte_eq_of_bytes_eq names (index - 4) (by omega)
      rwa [show offset + 4 + (index - 4) = offset + index by omega] at here
    · have here := byte_eq_of_bytes_eq values (index - 4 - nameLen base offset) (by omega)
      rwa [show offset + 4 + nameLen base offset + (index - 4 - nameLen base offset) =
        offset + index by omega] at here

/-! ## The bytes of a list -/

/-- The bytes from an offset on hold the entries of a list. -/
def Holds (base : Page) : Nat → List Attr → Prop
  | _, [] => True
  | offset, attr :: attrs =>
      attrAt base offset = attr ∧
        (∀ index, attr.length ≤ index → index < attr.size → base (offset + index) = 0) ∧
        Holds base (offset + attr.size) attrs

/-- The bytes up to a limit hold the entries of a list and zeros behind them. -/
structure Stored (base : Page) (limit offset : Nat) (attrs : List Attr) : Prop where
  holds : Holds base offset attrs
  fits : ∀ attr ∈ attrs, attr.Fits
  behind : ∀ index, offset + total attrs ≤ index → index < limit → base index = 0

theorem Holds.congr {base other : Page} {offset offset' : Nat} {attrs : List Attr}
    (holds : Holds base offset attrs)
    (same : ∀ index < total attrs, other (offset' + index) = base (offset + index)) :
    Holds other offset' attrs := by
  induction attrs generalizing offset offset' with
  | nil => trivial
  | cons attr attrs ih =>
    obtain ⟨rfl, padding, rest⟩ := holds
    rw [total_cons] at same
    have length_le := (attrAt base offset).length_le_size
    refine ⟨attrAt_congr fun index inside => same index (by omega), ?_, ?_⟩
    · intro index behind inside
      rw [same index (by omega)]
      exact padding index behind inside
    · apply ih rest
      intro index inside
      rw [Nat.add_assoc, Nat.add_assoc]
      exact same _ (by omega)

theorem holds_append {base : Page} {offset : Nat} {left right : List Attr} :
    Holds base offset (left ++ right) ↔
      Holds base offset left ∧ Holds base (offset + total left) right := by
  induction left generalizing offset with
  | nil => simp [Holds]
  | cons attr left ih =>
    rw [List.cons_append, Holds, Holds, ih, total_cons, ← Nat.add_assoc, and_assoc, and_assoc]

theorem Stored.tail {base : Page} {limit offset : Nat} {attr : Attr} {attrs : List Attr}
    (stored : Stored base limit offset (attr :: attrs)) :
    Stored base limit (offset + attr.size) attrs := by
  obtain ⟨⟨-, -, holds⟩, fits, behind⟩ := stored
  refine ⟨holds, fun other mem => fits other (List.mem_cons_of_mem _ mem), ?_⟩
  intro index above inside
  exact behind index (by rw [total_cons]; omega) inside

/-- The first entry of a list is not its end. -/
theorem Stored.head {base : Page} {limit offset : Nat} {attr : Attr} {attrs : List Attr}
    (stored : Stored base limit offset (attr :: attrs)) :
    attrAt base offset = attr ∧ isLast base offset = false ∧ entrySize base offset = attr.size := by
  obtain ⟨⟨rfl, -, -⟩, fits, -⟩ := stored
  exact ⟨rfl, not_isLast_of_index (fits _ List.mem_cons_self).index, (attrAt_size _ _).symm⟩

theorem Stored.isLast_end {base : Page} {limit offset : Nat}
    (stored : Stored base limit offset []) (room : offset + 4 ≤ limit) :
    isLast base offset = true := by
  apply isLast_of_zero
  intro index inside
  exact stored.behind _ (by rw [total_nil]; omega) (by omega)

/-! ## Walks -/

/-- `list_for_each_xattr` up to the entry of a name, or the last one; outside of the buffer there
is no result.  An entry has at least four bytes, so the limit bounds the rounds. -/
def findFrom (base : Page) (limit : Nat) (index : UInt8) (name : List UInt8) :
    (fuel offset : Nat) → Option Nat
  | 0, _ => none
  | fuel + 1, offset =>
      if limit < offset + 4 then none
      else if isLast base offset = true then some offset
      else if base offset = index ∧ nameLen base offset = name.length ∧
          bytes base (offset + 4) name.length = name then some offset
      else findFrom base limit index name fuel (offset + entrySize base offset)

/-- The loop to the last entry in `__f2fs_setxattr`. -/
def lastFrom (base : Page) (limit : Nat) : (fuel offset : Nat) → Option Nat
  | 0, _ => none
  | fuel + 1, offset =>
      if limit < offset + 4 then none
      else if isLast base offset = true then some offset
      else lastFrom base limit fuel (offset + entrySize base offset)

/-- The attributes `list_for_each_xattr` goes through. -/
def listFrom (base : Page) (limit : Nat) : (fuel offset : Nat) → Option (List Attr)
  | 0, _ => none
  | fuel + 1, offset =>
      if limit < offset + 4 then none
      else if isLast base offset = true then some []
      else (listFrom base limit fuel (offset + entrySize base offset)).map
        (attrAt base offset :: ·)

theorem Attr.four_le_size (attr : Attr) : 4 ≤ attr.size :=
  Nat.le_trans attr.four_le_length attr.length_le_size

theorem listFrom_stored {base : Page} {stop limit offset fuel : Nat} {attrs : List Attr}
    (stored : Stored base stop offset attrs) (room : offset + total attrs + 4 ≤ stop)
    (stop_le : stop ≤ limit) (enough : limit < offset + fuel) :
    listFrom base limit fuel offset = some attrs := by
  induction attrs generalizing offset fuel with
  | nil =>
    rw [total_nil, Nat.add_zero] at room
    cases fuel with
    | zero => omega
    | succ fuel => rw [listFrom, if_neg (by omega), if_pos (stored.isLast_end room)]
  | cons attr attrs ih =>
    rw [total_cons] at room
    have four_le := attr.four_le_size
    cases fuel with
    | zero => omega
    | succ fuel =>
      obtain ⟨here, notLast, size⟩ := stored.head
      rw [listFrom, if_neg (by omega), if_neg (by rw [notLast]; decide), size, here,
        ih stored.tail (by omega) (by omega), Option.map_some]

theorem lastFrom_stored {base : Page} {stop limit offset fuel : Nat} {attrs : List Attr}
    (stored : Stored base stop offset attrs) (room : offset + total attrs + 4 ≤ stop)
    (stop_le : stop ≤ limit) (enough : limit < offset + fuel) :
    lastFrom base limit fuel offset = some (offset + total attrs) := by
  induction attrs generalizing offset fuel with
  | nil =>
    rw [total_nil, Nat.add_zero] at room ⊢
    cases fuel with
    | zero => omega
    | succ fuel => rw [lastFrom, if_neg (by omega), if_pos (stored.isLast_end room)]
  | cons attr attrs ih =>
    rw [total_cons] at room ⊢
    have four_le := attr.four_le_size
    cases fuel with
    | zero => omega
    | succ fuel =>
      obtain ⟨-, notLast, size⟩ := stored.head
      rw [lastFrom, if_neg (by omega), if_neg (by rw [notLast]; decide), size,
        ih stored.tail (by omega) (by omega), Nat.add_assoc]

/-- The key of an attribute. -/
def Attr.key (attr : Attr) : UInt8 × List UInt8 := (attr.index, attr.name)

theorem matches_iff {base : Page} {offset : Nat} {index : UInt8} {name : List UInt8} :
    base offset = index ∧ nameLen base offset = name.length ∧
        bytes base (offset + 4) name.length = name ↔
      (attrAt base offset).key = (index, name) := by
  rw [Attr.key, Prod.mk.injEq]
  constructor
  · rintro ⟨index, length, same⟩
    exact ⟨index, by rw [attrAt, length]; exact same⟩
  · rintro ⟨index, same⟩
    have length : nameLen base offset = name.length := by
      rw [← same]
      simp [attrAt]
    exact ⟨index, length, by rw [← length]; exact same⟩

/-- The walk finds the first attribute with the key, or the end of the list. -/
theorem findFrom_stored {base : Page} {stop limit offset fuel : Nat} {index : UInt8}
    {name : List UInt8} {before attrs : List Attr}
    (stored : Stored base stop offset (before ++ attrs))
    (room : offset + total (before ++ attrs) + 4 ≤ stop) (stop_le : stop ≤ limit)
    (enough : limit < offset + fuel)
    (absent : ∀ attr ∈ before, attr.key ≠ (index, name))
    (found : ∀ attr ∈ attrs.head?, attr.key = (index, name)) :
    findFrom base limit index name fuel offset = some (offset + total before) := by
  induction before generalizing offset fuel with
  | nil =>
    rw [List.nil_append] at stored room
    cases fuel with
    | zero => omega
    | succ fuel =>
      cases attrs with
      | nil =>
        rw [total_nil, Nat.add_zero] at room
        rw [findFrom, if_neg (by omega), if_pos (stored.isLast_end room), total_nil, Nat.add_zero]
      | cons attr attrs =>
        obtain ⟨here, notLast, -⟩ := stored.head
        have same : (attrAt base offset).key = (index, name) := by
          rw [here]
          exact found attr rfl
        rw [findFrom, if_neg (by omega), if_neg (by rw [notLast]; decide),
          if_pos (matches_iff.2 same), total_nil, Nat.add_zero]
  | cons attr before ih =>
    rw [List.cons_append] at stored
    rw [List.cons_append, total_cons] at room
    have four_le := attr.four_le_size
    cases fuel with
    | zero => omega
    | succ fuel =>
      obtain ⟨here, notLast, size⟩ := stored.head
      have differ : ¬ (attrAt base offset).key = (index, name) := by
        rw [here]
        exact absent attr List.mem_cons_self
      rw [findFrom, if_neg (by omega), if_neg (by rw [notLast]; decide),
        if_neg (mt matches_iff.1 differ), size,
        ih stored.tail (by omega) (by omega)
          (fun other mem => absent other (List.mem_cons_of_mem _ mem)), total_cons, Nat.add_assoc]

/-! ## Lists with a common beginning of their bytes -/

theorem listFrom_nil {base : Page} {limit fuel offset : Nat}
    (listed : listFrom base limit fuel offset = some []) : isLast base offset = true := by
  cases fuel with
  | zero => cases listed
  | succ fuel =>
    rw [listFrom] at listed
    split at listed
    · cases listed
    split at listed
    next last => exact last
    · obtain ⟨_, -, impossible⟩ := Option.map_eq_some_iff.1 listed
      cases impossible

theorem listFrom_cons {base : Page} {limit fuel offset : Nat} {attr : Attr} {attrs : List Attr}
    (listed : listFrom base limit fuel offset = some (attr :: attrs)) :
    attrAt base offset = attr ∧
      ∃ fuel, listFrom base limit fuel (offset + attr.size) = some attrs := by
  cases fuel with
  | zero => cases listed
  | succ fuel =>
    rw [listFrom] at listed
    split at listed
    · cases listed
    split at listed
    · cases listed
    · obtain ⟨rest, listedRest, same⟩ := Option.map_eq_some_iff.1 listed
      obtain ⟨rfl, rfl⟩ := List.cons.inj same
      exact ⟨rfl, fuel, by rw [attrAt_size]; exact listedRest⟩

/-- Bytes that begin like one list and read as another: then the two lists begin alike.  `stop` is
the end of the common beginning, between two words. -/
theorem Stored.agree {base other mixed : Page} {limit bound stop offset fuel : Nat}
    {attrs attrs' : List Attr} (stored : Stored base limit offset attrs)
    (stored' : Stored other limit offset attrs')
    (listed : listFrom mixed bound fuel offset = some attrs)
    (begins : ∀ index, offset ≤ index → index < stop → mixed index = other index)
    (words : 4 ∣ offset ∧ 4 ∣ stop) (stop_le : stop ≤ limit) :
    ∀ index, offset ≤ index → index < stop → base index = other index := by
  induction attrs generalizing offset fuel attrs' with
  | nil =>
    intro index above below
    have word := isLast_iff.1 (listFrom_nil listed)
    have ended : attrs' = [] := by
      cases attrs' with
      | nil => rfl
      | cons attr attrs' =>
        have first := word 0 (by decide)
        rw [Nat.add_zero, begins offset (Nat.le_refl _) (by omega)] at first
        have notZero := (stored'.fits attr List.mem_cons_self).index
        rw [← stored'.head.1] at notZero
        exact absurd first notZero
    subst ended
    rw [stored.behind index (by rw [total_nil]; omega) (by omega),
      stored'.behind index (by rw [total_nil]; omega) (by omega)]
  | cons attr attrs ih =>
    intro index above below
    obtain ⟨mixedHead, fuel, rest⟩ := listFrom_cons listed
    have fits := stored.fits attr List.mem_cons_self
    obtain ⟨baseHead, -, -⟩ := stored.head
    have room : offset + 4 ≤ stop := by omega
    cases attrs' with
    | nil =>
      -- the other list has ended, the bytes have not
      exfalso
      have zero := stored'.behind offset (by simp) (by omega)
      rw [← begins offset (Nat.le_refl _) (by omega)] at zero
      apply fits.index
      rw [← mixedHead]
      exact zero
    | cons attr' attrs' =>
    obtain ⟨otherHead, -, -⟩ := stored'.head
    -- the headers agree, so the entries have one size
    have lengths : attr'.name.length = attr.name.length ∧
        attr'.value.length = attr.value.length := by
      rw [← otherHead, ← mixedHead]
      simp only [attrAt, length_bytes]
      rw [nameLen, nameLen, valueSize, valueSize, Page.le16, Page.le16,
        begins (offset + 1) (by omega) (by omega), begins (offset + 2) (by omega) (by omega),
        begins (offset + 2 + 1) (by omega) (by omega)]
      exact ⟨rfl, rfl⟩
    have length_eq : attr'.length = attr.length := by
      rw [Attr.length, Attr.length, lengths.1, lengths.2]
    have size_eq : attr'.size = attr.size := by
      rw [Attr.size, Attr.size, length_eq]
    have baseMixed : ∀ index < attr.length, base (offset + index) = mixed (offset + index) := by
      intro index inside
      apply byte_eq_of_attrAt_eq (baseHead.trans mixedHead.symm)
      rw [mixedHead]
      exact inside
    have inEntry : ∀ index < attr.size, offset + index < stop →
        base (offset + index) = other (offset + index) := by
      intro index inside below
      rcases Nat.lt_or_ge index attr.length with content | padding
      · rw [baseMixed index content, begins _ (by omega) below]
      · rw [stored.holds.2.1 index padding inside,
          stored'.holds.2.1 index (length_eq ▸ padding) (size_eq ▸ inside)]
    rcases Nat.lt_or_ge index (offset + attr.size) with here | later
    · have := inEntry (index - offset) (by omega) (by omega)
      rwa [Nat.add_sub_cancel' above] at this
    · have tail' := stored'.tail
      rw [size_eq] at tail'
      apply ih stored.tail tail' rest (fun index above => begins index (by omega)) _ index later
        below
      exact ⟨Nat.dvd_add words.1 (four_dvd_xattrAlign _), words.2⟩

end Xattr
end F2fs
end StorageStack
