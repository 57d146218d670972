import StorageStack.F2fs.Xattr

/-!
# Edits of the list of attributes

`__f2fs_setxattr` moves the entries behind a removed one down and appends the new one, so the bytes
hold the edited list.  When both parts are written, the inode holds it; when the node fails, the
inline area holds the new bytes and the node the old ones.
-/

namespace StorageStack
namespace F2fs
namespace Xattr

/-! ## The edits -/

theorem removeEntry_before {base : Page} {here last index : Nat}
    (room : here + entrySize base here ≤ last) (before : index < here) :
    removeEntry base here last index = base index := by
  rw [removeEntry, Page.copy_outside (.inl (by omega)), Page.copy_outside (.inl before)]

theorem removeEntry_moved {base : Page} {here last index : Nat}
    (inside : here + entrySize base here + index < last) :
    removeEntry base here last (here + index) = base (here + entrySize base here + index) := by
  rw [removeEntry, Page.copy_outside (.inl (by omega)), Page.copy_inside (by omega)]

theorem removeEntry_cleared {base : Page} {here last index : Nat}
    (above : last - entrySize base here ≤ index) (below : index < last) :
    removeEntry base here last index = 0 := by
  have inside : last - entrySize base here + (index - (last - entrySize base here)) = index := by
    omega
  rw [removeEntry, ← inside, Page.copy_inside (by omega)]
  rfl

theorem removeEntry_behind {base : Page} {here last index : Nat}
    (room : here + entrySize base here ≤ last) (behind : last ≤ index) :
    removeEntry base here last index = base index := by
  rw [removeEntry, Page.copy_outside (.inr (by omega)), Page.copy_outside (.inr (by omega))]

/-- The bytes hold the list without the removed entry. -/
theorem Stored.removeEntry {base : Page} {limit offset : Nat} {attr : Attr}
    {before after : List Attr} (stored : Stored base limit offset (before ++ attr :: after)) :
    Stored (removeEntry base (offset + total before)
        (offset + total (before ++ attr :: after))) limit offset (before ++ after) := by
  obtain ⟨holds, fits, behind⟩ := stored
  obtain ⟨front, attr_eq, -, back⟩ := holds_append.1 holds
  have size : entrySize base (offset + total before) = attr.size := by
    rw [← attr_eq, attrAt_size]
  have whole : offset + total (before ++ attr :: after) =
      offset + total before + attr.size + total after := by
    rw [total_append, total_cons]
    omega
  rw [whole] at behind ⊢
  refine ⟨holds_append.2 ⟨?_, ?_⟩, ?_, ?_⟩
  · apply front.congr
    intro index inside
    exact removeEntry_before (by rw [size]; omega) (by omega)
  · apply back.congr
    intro index inside
    rw [← size]
    exact removeEntry_moved (by rw [size]; omega)
  · intro other mem
    apply fits
    rcases List.mem_append.1 mem with first | second
    · exact List.mem_append_left _ first
    · exact List.mem_append_right _ (List.mem_cons_of_mem _ second)
  · intro index above below
    rw [total_append] at above
    rcases Nat.lt_or_ge index (offset + total before + attr.size + total after) with moved | rest
    · exact removeEntry_cleared (by rw [size]; omega) moved
    · rw [removeEntry_behind (by rw [size]; omega) rest]
      exact behind index rest below

variable {base : Page} {last : Nat} {index : UInt8} {name value : List UInt8}

/-- An edit of the new entry changes its bytes only. -/
theorem writeEntry_outside {byte : Nat}
    (outside : byte < last ∨ last + (Attr.mk index name value).size ≤ byte) :
    writeEntry base last index name value byte = base byte := by
  have length_le := (Attr.mk index name value).length_le_size
  have length_eq : (Attr.mk index name value).length = 4 + name.length + value.length := rfl
  have size_eq : (Attr.mk index name value).size = xattrAlign (4 + name.length + value.length) :=
    rfl
  rw [writeEntry, Page.putLe16_outside (by omega), Page.copy_outside (by omega),
    Page.copy_outside (by omega), Page.copy_outside (by omega),
    Page.copy_outside (by rw [← size_eq]; exact outside)]

theorem writeEntry_name {byte : Nat} (inside : byte < name.length) :
    writeEntry base last index name value (last + 4 + byte) = name.getD byte 0 := by
  rw [writeEntry, Page.putLe16_outside (by omega), Page.copy_outside (by omega),
    Page.copy_inside inside, Nat.zero_add]

theorem writeEntry_value {byte : Nat} (inside : byte < value.length) :
    writeEntry base last index name value (last + 4 + name.length + byte) =
      value.getD byte 0 := by
  rw [writeEntry, Page.putLe16_outside (by omega), Page.copy_inside inside, Nat.zero_add]

theorem writeEntry_index : writeEntry base last index name value last = index := by
  have first := @Page.copy_inside (base.copy last Page.zero 0
    (xattrAlign (4 + name.length + value.length)))
    (fun byte => if byte = 0 then index else UInt8.ofNat name.length) last 0 2 0 (by decide)
  rw [Nat.add_zero] at first
  rw [writeEntry, Page.putLe16_outside (by omega), Page.copy_outside (by omega),
    Page.copy_outside (by omega), first]
  rfl

theorem writeEntry_nameLen (fits : name.length ≤ 255) :
    nameLen (writeEntry base last index name value) last = name.length := by
  rw [nameLen, writeEntry, Page.putLe16_outside (by omega), Page.copy_outside (by omega),
    Page.copy_outside (by omega), Page.copy_inside (by decide)]
  show (UInt8.ofNat name.length).toNat = name.length
  rw [UInt8.toNat_ofNat', Nat.mod_eq_of_lt (by omega)]

theorem writeEntry_valueSize (fits : value.length < 2 ^ 16) :
    valueSize (writeEntry base last index name value) last = value.length := by
  have word (page : Page) (offset word : Nat) (small : word < 2 ^ 16) :
      ((page.putLe16 offset word).le16 offset).toNat = word := by
    have first := @Page.copy_inside page (Page.wordBytes word) offset 0 2 0 (by decide)
    have second := @Page.copy_inside page (Page.wordBytes word) offset 0 2 1 (by decide)
    rw [Nat.add_zero] at first
    rw [Page.le16, Page.putLe16, first, second]
    simp only [Page.wordBytes, UInt16.toNat_ofNat', UInt8.toNat_ofNat']
    omega
  exact word _ _ _ fits

theorem writeEntry_padding {byte : Nat} (above : (Attr.mk index name value).length ≤ byte)
    (below : byte < (Attr.mk index name value).size) :
    writeEntry base last index name value (last + byte) = 0 := by
  have behind : 4 + name.length + value.length ≤ byte := above
  have inside : byte < xattrAlign (4 + name.length + value.length) := below
  rw [writeEntry, Page.putLe16_outside (by omega), Page.copy_outside (by omega),
    Page.copy_outside (by omega), Page.copy_outside (by omega), Page.copy_inside inside]
  rfl

theorem attrAt_writeEntry (nameFits : name.length ≤ 255) (valueFits : value.length < 2 ^ 16) :
    attrAt (writeEntry base last index name value) last = ⟨index, name, value⟩ := by
  rw [attrAt, writeEntry_index, writeEntry_nameLen nameFits, writeEntry_valueSize valueFits]
  congr 1
  · rw [bytes_eq_iff]
    intro byte inside
    rw [writeEntry_name inside, List.getD_eq_getElem?_getD, List.getElem?_eq_getElem inside,
      Option.getD_some]
  · rw [bytes_eq_iff]
    intro byte inside
    rw [writeEntry_value inside, List.getD_eq_getElem?_getD, List.getElem?_eq_getElem inside,
      Option.getD_some]

/-- The bytes hold the list with the new entry. -/
theorem Stored.writeEntry {limit offset : Nat} {attrs : List Attr}
    (stored : Stored base limit offset attrs) (fits : (Attr.mk index name value).Fits) :
    Stored (writeEntry base (offset + total attrs) index name value) limit offset
      (attrs ++ [⟨index, name, value⟩]) := by
  refine ⟨holds_append.2 ⟨?_, ?_, ?_, trivial⟩, ?_, ?_⟩
  · apply stored.holds.congr
    intro byte inside
    exact writeEntry_outside (.inl (by omega))
  · exact attrAt_writeEntry fits.name fits.value
  · intro byte above below
    exact writeEntry_padding above below
  · intro attr mem
    rcases List.mem_append.1 mem with old | new
    · exact stored.fits attr old
    · rw [List.mem_singleton.1 new]
      exact fits
  · intro byte above below
    rw [total_append, total_cons, total_nil] at above
    rw [writeEntry_outside (.inr (by omega))]
    exact stored.behind byte (by omega) below

/-! ## The bytes of a list -/

theorem bytes_add (page : Page) (offset first second : Nat) :
    bytes page offset (first + second) =
      bytes page offset first ++ bytes page (offset + first) second := by
  rw [bytes, List.range_add, List.map_append, List.map_map]
  congr 1
  apply List.map_congr_left
  intro byte _
  rw [Function.comp_apply, Nat.add_assoc]

theorem ofNat_byte (byte : UInt8) : UInt8.ofNat byte.toNat = byte := by
  simp

theorem bytes_header (page : Page) (offset : Nat) :
    bytes page offset 4 = [page offset, UInt8.ofNat (nameLen page offset),
      UInt8.ofNat (valueSize page offset), UInt8.ofNat (valueSize page offset / 2 ^ 8)] := by
  have low := (page (offset + 2)).toNat_lt
  have high := (page (offset + 2 + 1)).toNat_lt
  have size : valueSize page offset =
      (page (offset + 2)).toNat + 2 ^ 8 * (page (offset + 2 + 1)).toNat := by
    rw [valueSize, Page.le16, UInt16.toNat_ofNat', Nat.mod_eq_of_lt (by omega)]
  have second : UInt8.ofNat (valueSize page offset) = page (offset + 2) := by
    rw [← UInt8.toNat_inj, UInt8.toNat_ofNat', size]
    omega
  have third : UInt8.ofNat (valueSize page offset / 2 ^ 8) = page (offset + 3) := by
    rw [← UInt8.toNat_inj, UInt8.toNat_ofNat', size,
      show offset + 3 = offset + 2 + 1 from rfl]
    omega
  rw [second, third, nameLen, ofNat_byte]
  rfl

/-- An entry with zeros behind its value holds the bytes of its attribute. -/
theorem bytes_entry {page : Page} {offset : Nat}
    (padding : ∀ byte, (attrAt page offset).length ≤ byte → byte < (attrAt page offset).size →
      page (offset + byte) = 0) :
    bytes page offset (attrAt page offset).size = (attrAt page offset).bytes := by
  have length_le := (attrAt page offset).length_le_size
  obtain ⟨filling, size_eq⟩ := Nat.exists_eq_add_of_le length_le
  have zeros : bytes page (offset + (attrAt page offset).length) filling =
      List.replicate filling 0 := by
    rw [List.eq_replicate_iff]
    refine ⟨length_bytes _ _ _, ?_⟩
    intro byte mem
    obtain ⟨index, inside, rfl⟩ := List.mem_map.1 mem
    rw [Nat.add_assoc]
    exact padding _ (by omega) (by have := List.mem_range.1 inside; omega)
  rw [Attr.bytes, size_eq, Nat.add_sub_cancel_left, bytes_add, zeros]
  congr 1
  rw [attrAt_length, bytes_add, bytes_add, bytes_header]
  simp [attrAt, Nat.add_assoc]

theorem Holds.bytes {page : Page} {offset : Nat} {attrs : List Attr}
    (holds : Holds page offset attrs) :
    bytes page offset (total attrs) = attrs.flatMap Attr.bytes := by
  induction attrs generalizing offset with
  | nil => rfl
  | cons attr attrs ih =>
    obtain ⟨rfl, padding, rest⟩ := holds
    rw [total_cons, bytes_add, bytes_entry padding, ih rest, List.flatMap_cons]

/-- The bytes of the list stand at its place, up to the limit. -/
theorem Stored.byte {page : Page} {limit offset : Nat} {attrs : List Attr}
    (stored : Stored page limit offset attrs) {byte : Nat} (inside : offset + byte < limit) :
    page (offset + byte) = (attrs.flatMap Attr.bytes).getD byte 0 := by
  rw [← stored.holds.bytes, List.getD_eq_getElem?_getD]
  rcases Nat.lt_or_ge byte (total attrs) with content | behind
  · rw [getElem?_bytes content, Option.getD_some]
  · rw [List.getElem?_eq_none (by rw [length_bytes]; exact behind), Option.getD_none]
    exact stored.behind _ (by omega) inside

/-! ## Lookups -/

/-- The first attribute with a key. -/
def lookup (list : List Attr) (index : UInt8) (name : List UInt8) : Option Attr :=
  list.find? fun attr => attr.key = (index, name)

theorem lookup_edited_other {list : List Attr} {index index' : UInt8} {name name' : List UInt8}
    {value : Option (List UInt8)} (differ : (index', name') ≠ (index, name)) :
    lookup (edited list index name value) index' name' = lookup list index' name' := by
  have added : lookup (value.map (⟨index, name, ·⟩)).toList index' name' = none := by
    apply List.find?_eq_none.2
    intro attr mem
    obtain ⟨stored, -, rfl⟩ := Option.map_eq_some_iff.1 (Option.mem_toList.1 mem)
    simpa [Attr.key] using fun same => mt (Prod.ext same) differ.symm
  rw [lookup, edited, List.find?_append, List.find?_filter]
  rw [lookup] at added
  rw [added, Option.or_none, lookup]
  congr 1
  funext attr
  by_cases same : attr.key = (index', name')
  · simp [same, differ]
  · simp [same]

theorem lookup_edited_self {list : List Attr} {index : UInt8} {name : List UInt8}
    {value : Option (List UInt8)} :
    lookup (edited list index name value) index name = value.map (⟨index, name, ·⟩) := by
  have removed : lookup (list.filter fun attr => attr.key ≠ (index, name)) index name = none := by
    apply List.find?_eq_none.2
    intro attr mem
    simpa using (List.mem_filter.1 mem).2
  rw [lookup] at removed
  rw [lookup, edited, List.find?_append, removed, Option.none_or]
  cases value with
  | none => rfl
  | some value => simp [Attr.key]

/-- What is left of a list without a key. -/
theorem edited_none_of_split {before after : List Attr} {attr : Attr} {index : UInt8}
    {name : List UInt8} (keys : ((before ++ attr :: after).map Attr.key).Nodup)
    (here : attr.key = (index, name)) :
    edited (before ++ attr :: after) index name none = before ++ after := by
  rw [List.map_append, List.map_cons, List.nodup_append, List.nodup_cons] at keys
  obtain ⟨-, ⟨notBehind, -⟩, apart⟩ := keys
  have notBefore : ∀ other ∈ before, other.key ≠ (index, name) := by
    intro other mem same
    exact apart _ (List.mem_map_of_mem mem) _ List.mem_cons_self (same.trans here.symm)
  have notAfter : ∀ other ∈ after, other.key ≠ (index, name) := by
    intro other mem same
    exact notBehind (here.trans same.symm ▸ List.mem_map_of_mem mem)
  rw [edited, List.filter_append, List.filter_cons_of_neg (by simp [here]),
    List.filter_eq_self.2 fun other mem => decide_eq_true (notBefore other mem),
    List.filter_eq_self.2 fun other mem => decide_eq_true (notAfter other mem)]
  simp

theorem edited_none_of_absent {list : List Attr} {index : UInt8} {name : List UInt8}
    (absent : (index, name) ∉ list.map Attr.key) : edited list index name none = list := by
  rw [edited, List.filter_eq_self.2]
  · simp
  · intro attr mem
    apply decide_eq_true
    intro same
    exact absent (same ▸ List.mem_map_of_mem mem)

theorem edited_some (list : List Attr) (index : UInt8) (name value : List UInt8) :
    edited list index name (some value) =
      edited list index name none ++ [⟨index, name, value⟩] := by
  simp [edited]

theorem nodup_edited {list : List Attr} {index : UInt8} {name : List UInt8}
    {value : Option (List UInt8)} (keys : (list.map Attr.key).Nodup) :
    ((edited list index name value).map Attr.key).Nodup := by
  have left : ((edited list index name none).map Attr.key).Nodup := by
    rw [edited, Option.map_none, Option.toList_none, List.append_nil]
    exact keys.sublist (List.filter_sublist.map _)
  cases value with
  | none => exact left
  | some value =>
    rw [edited_some, List.map_append, List.nodup_append]
    refine ⟨left, by simp, ?_⟩
    intro key mem other new same
    obtain ⟨attr, kept, rfl⟩ := List.mem_map.1 mem
    rw [edited, Option.map_none, Option.toList_none, List.append_nil] at kept
    have differ := of_decide_eq_true (List.mem_filter.1 kept).2
    rw [List.map_singleton, List.mem_singleton] at new
    exact differ (same.trans new)

/-- A key is in the list or not; a list with different keys splits at it. -/
theorem key_split {list : List Attr} (keys : (list.map Attr.key).Nodup) (index : UInt8)
    (name : List UInt8) :
    (∃ before attr after, list = before ++ attr :: after ∧ attr.key = (index, name) ∧
        ∀ other ∈ before, other.key ≠ (index, name)) ∨
      (index, name) ∉ list.map Attr.key := by
  by_cases mem : (index, name) ∈ list.map Attr.key
  · obtain ⟨attr, inList, here⟩ := List.mem_map.1 mem
    obtain ⟨before, after, rfl⟩ := List.append_of_mem inList
    refine .inl ⟨before, attr, after, rfl, here, ?_⟩
    rw [List.map_append, List.map_cons, List.nodup_append] at keys
    intro other inBefore same
    exact keys.2.2 _ (List.mem_map_of_mem inBefore) _ List.mem_cons_self (same.trans here.symm)
  · exact .inr mem

theorem lookup_split {before after : List Attr} {attr : Attr} {index : UInt8}
    {name : List UInt8} (here : attr.key = (index, name))
    (absent : ∀ other ∈ before, other.key ≠ (index, name)) :
    lookup (before ++ attr :: after) index name = some attr := by
  have notBefore : before.find? (fun attr => attr.key = (index, name)) = none := by
    apply List.find?_eq_none.2
    intro other mem
    simpa using absent other mem
  rw [lookup, List.find?_append, notBefore, Option.none_or]
  exact List.find?_cons_of_pos (decide_eq_true here)

theorem lookup_absent {list : List Attr} {index : UInt8} {name : List UInt8}
    (absent : (index, name) ∉ list.map Attr.key) : lookup list index name = none := by
  apply List.find?_eq_none.2
  intro attr mem
  simp only [decide_eq_true_eq]
  intro same
  exact absent (same ▸ List.mem_map_of_mem mem)

namespace WellFormed

variable {inode : XattrInode} {list : List Attr}

theorem stop_le (inode : XattrInode) : inode.inlineSize + nodeArea ≤ inode.bufferSize :=
  Nat.add_le_add_left (by decide) _

theorem enough (inode : XattrInode) : inode.bufferSize < xattrHeaderSize + inode.bufferSize :=
  Nat.lt_add_of_pos_left (by decide)

/-- The list is read back. -/
theorem attrs (wf : WellFormed inode list) : inode.attrs = some list :=
  listFrom_stored wf.stored wf.ended (stop_le inode) (enough inode)

theorem terminated (wf : WellFormed inode list) : Terminated inode :=
  ⟨_, lastFrom_stored wf.stored wf.ended (stop_le inode) (enough inode), wf.ended⟩

/-- An attribute is read by the lookup of its key. -/
theorem getxattr (wf : WellFormed inode list) (index : UInt8) (name : List UInt8) :
    f2fsGetxattr inode index name =
      some (if f2fsNameLen < name.length then .error .range
        else match lookup list index name with
          | none => .error .nodata
          | some attr => .ok attr.value) := by
  rw [f2fsGetxattr]
  by_cases long : f2fsNameLen < name.length
  · rw [if_pos long, if_pos long]
  rw [if_neg long, if_neg long]
  rcases key_split wf.keys index name with ⟨before, attr, after, rfl, here, absent⟩ | absent
  · have found := findFrom_stored wf.stored wf.ended (stop_le inode) (enough inode) absent
      (fun other mem => by rw [← Option.some.inj mem]; exact here)
    obtain ⟨-, entry, -, -⟩ := holds_append.1 wf.stored.holds
    have notLast : isLast inode.buffer (xattrHeaderSize + total before) = false := by
      apply not_isLast_of_index
      have fits := wf.stored.fits attr (List.mem_append_right _ List.mem_cons_self)
      rw [← entry] at fits
      exact fits.index
    rw [lookup_split here absent]
    simp only [found, Option.map_some, notLast, Bool.false_eq_true, if_false]
    rw [← entry]
    rfl
  · have stored : Stored inode.buffer (inode.inlineSize + nodeArea) xattrHeaderSize
        (list ++ []) := by
      rw [List.append_nil]
      exact wf.stored
    have found := findFrom_stored stored
      (by rw [List.append_nil]; exact wf.ended) (stop_le inode) (enough inode)
      (fun attr mem same => absent (same ▸ List.mem_map_of_mem mem))
      (fun other mem => by cases mem)
    have last : isLast inode.buffer (xattrHeaderSize + total list) = true := by
      apply isLast_of_zero
      intro byte inside
      have ended := wf.ended
      exact wf.stored.behind _ (by omega) (by omega)
    rw [lookup_absent absent]
    simp only [found, Option.map_some, last, if_true]

end WellFormed

/-! ## The edited buffer -/

/-- The buffer with another list behind its header. -/
structure Edited (inode : XattrInode) (txattr : Page) (list : List Attr) : Prop where
  stored : Stored txattr (inode.inlineSize + nodeArea) xattrHeaderSize list
  header : ∀ byte < xattrHeaderSize, txattr byte = inode.buffer byte

theorem Stored.drop {page : Page} {limit offset : Nat} {before attrs : List Attr}
    (stored : Stored page limit offset (before ++ attrs)) :
    Stored page limit (offset + total before) attrs := by
  refine ⟨(holds_append.1 stored.holds).2, fun attr mem =>
    stored.fits attr (List.mem_append_right _ mem), ?_⟩
  intro byte above below
  exact stored.behind byte (by rw [total_append]; omega) below

/-- What the search, the walk to the end and the removal leave. -/
theorem WellFormed.removal {inode : XattrInode} {list : List Attr} (wf : WellFormed inode list)
    (index : UInt8) (name : List UInt8) :
    ∃ here, findFrom inode.buffer inode.bufferSize index name inode.bufferSize xattrHeaderSize =
        some here ∧
      lastFrom inode.buffer inode.bufferSize inode.bufferSize here =
        some (xattrHeaderSize + total list) ∧
      ((!isLast inode.buffer here) = true ↔ (index, name) ∈ list.map Attr.key) ∧
      xattrHeaderSize + total list = xattrHeaderSize + total (edited list index name none) +
        (if (!isLast inode.buffer here) = true then entrySize inode.buffer here else 0) ∧
      Edited inode (if (!isLast inode.buffer here) = true then
        removeEntry inode.buffer here (xattrHeaderSize + total list) else inode.buffer)
        (edited list index name none) := by
  have ended := wf.ended
  rcases key_split wf.keys index name with ⟨before, attr, after, rfl, here, absent⟩ | absent
  · have found := findFrom_stored wf.stored wf.ended (stop_le inode) (enough inode) absent
      (fun other mem => by rw [← Option.some.inj mem]; exact here)
    have rest := wf.stored.drop
    obtain ⟨-, notLast, size⟩ := rest.head
    have whole : xattrHeaderSize + total before + total (attr :: after) =
        xattrHeaderSize + total (before ++ attr :: after) := by
      rw [total_append, Nat.add_assoc]
    have last := lastFrom_stored rest (by rw [whole]; exact ended) (stop_le inode)
      (Nat.lt_of_lt_of_le (enough inode) (Nat.add_le_add_right (Nat.le_add_right _ _) _))
    rw [whole] at last
    refine ⟨_, found, last, ?_, ?_, ?_⟩
    · rw [notLast]
      exact iff_of_true rfl (List.mem_map.2
        ⟨attr, List.mem_append_right _ List.mem_cons_self, here⟩)
    · rw [notLast, edited_none_of_split wf.keys here, size]
      simp only [Bool.not_false, if_true, total_append, total_cons]
      omega
    · rw [notLast, edited_none_of_split wf.keys here]
      refine ⟨wf.stored.removeEntry, ?_⟩
      intro byte inside
      simp only [Bool.not_false, if_true]
      apply removeEntry_before _ (by omega)
      rw [size, ← whole, total_cons]
      omega
  · have stored : Stored inode.buffer (inode.inlineSize + nodeArea) xattrHeaderSize
        (list ++ []) := by
      rw [List.append_nil]
      exact wf.stored
    have found := findFrom_stored stored
      (by rw [List.append_nil]; exact wf.ended) (stop_le inode) (enough inode)
      (fun attr mem same => absent (same ▸ List.mem_map_of_mem mem))
      (fun other mem => by cases mem)
    have isEnd : isLast inode.buffer (xattrHeaderSize + total list) = true :=
      stored.drop.isLast_end ended
    have last := lastFrom_stored stored.drop ended (stop_le inode)
      (Nat.lt_of_lt_of_le (enough inode) (Nat.add_le_add_right (Nat.le_add_right _ _) _))
    refine ⟨_, found, last, ?_, ?_, ?_⟩
    · simp [isEnd, absent]
    · rw [isEnd, edited_none_of_absent absent]
      rfl
    · rw [isEnd, edited_none_of_absent absent]
      exact ⟨wf.stored, fun _ _ => rfl⟩

theorem readAllXattrs_eq {inode : XattrInode} {answers : Answers} {ipage : Bool} {base : Page}
    (read : readAllXattrs inode answers ipage = some base) : base = inode.buffer := by
  rw [readAllXattrs] at read
  split at read
  · cases read
  split at read
  · cases read
  split at read
  · cases read
  · exact (Option.some.inj read).symm

theorem minOffset_add (inode : XattrInode) :
    minOffset inode.hasInline + 4 = inode.inlineSize + nodeArea := by
  rw [XattrInode.inlineSize]
  cases inode.hasInline <;> rfl

theorem maxValueLen_lt (hasInline : Bool) : maxValueLen hasInline < 2 ^ 16 := by
  cases hasInline <;> decide

/-- The new entry goes behind the list that is left. -/
theorem Edited.write {inode : XattrInode} {txattr : Page} {list : List Attr} {index : UInt8}
    {name value : List UInt8} (edited : Edited inode txattr list)
    (fits : (Attr.mk index name value).Fits) :
    Edited inode (writeEntry txattr (xattrHeaderSize + total list) index name value)
      (list ++ [⟨index, name, value⟩]) := by
  refine ⟨edited.stored.writeEntry fits, ?_⟩
  intro byte inside
  rw [writeEntry_outside (.inl (by omega)), edited.header byte inside]

theorem total_edited_none_le (list : List Attr) (index : UInt8) (name : List UInt8) :
    total (edited list index name none) ≤ total list := by
  rw [edited, Option.map_none, Option.toList_none, List.append_nil]
  exact (List.filter_sublist.map _).sum_le_sum fun _ _ => Nat.zero_le _

/-- A call ends before `write_all_xattrs`, or comes there with the edited list. -/
theorem WellFormed.setxattr_cases {inode : XattrInode} {list : List Attr}
    (wf : WellFormed inode list) (answers : Answers) (call : Call) :
    ((∃ error, f2fsSetxattr inode answers call = some (.error error, inode)) ∧
        ∀ name, ¬ Admitted inode list answers call name) ∨
      ∃ name txattr, Admitted inode list answers call name ∧
        Edited inode txattr (edited list call.index name call.value) ∧
        xattrHeaderSize + total (edited list call.index name call.value) + 4 ≤
          inode.inlineSize + nodeArea ∧
        f2fsSetxattr inode answers call = some (writeAllXattrs inode answers call.ipage
          (xattrHeaderSize + total (edited list call.index name call.value)) txattr) := by
  have room := minOffset_add inode
  have ended := wf.ended
  rw [f2fsSetxattr]
  cases named : call.name with
  | none => exact .inl ⟨⟨_, rfl⟩, fun name admitted => by
      have := named.symm.trans admitted.named
      cases this⟩
  | some name =>
  have same (other : List UInt8) (admitted : Admitted inode list answers call other) :
      other = name := Option.some.inj (admitted.named.symm.trans named)
  simp only
  by_cases long : f2fsNameLen < name.length ∨
      maxValueLen inode.hasInline < (call.value.getD []).length
  · rw [if_pos long]
    refine .inl ⟨⟨_, rfl⟩, ?_⟩
    intro other admitted
    cases same other admitted
    have := admitted.name_le
    have := admitted.value_le
    omega
  rw [if_neg long]
  cases read : readAllXattrs inode answers call.ipage with
  | none => exact .inl ⟨⟨_, rfl⟩, fun _ admitted => admitted.read read⟩
  | some base =>
  cases readAllXattrs_eq read
  obtain ⟨here, find, last, found_iff, size, removed⟩ := wf.removal call.index name
  simp only [find, Option.bind_some]
  by_cases replace : call.replace = true ∧ (!isLast inode.buffer here) = false
  · rw [if_pos replace]
    refine .inl ⟨⟨_, rfl⟩, ?_⟩
    intro other admitted
    cases same other admitted
    have := found_iff.2 (admitted.replace replace.1)
    rw [replace.2] at this
    cases this
  rw [if_neg replace]
  by_cases create : call.create = true ∧ (!isLast inode.buffer here) = true
  · rw [if_pos create]
    refine .inl ⟨⟨_, rfl⟩, ?_⟩
    intro other admitted
    cases same other admitted
    exact admitted.create create.1 (found_iff.1 create.2)
  rw [if_neg create]
  simp only [last, Option.map_some]
  rw [not_or] at long
  have replaceOk : call.replace = true → (call.index, name) ∈ list.map Attr.key := by
    intro set
    apply found_iff.1
    rw [← Bool.not_eq_false]
    exact fun absent => replace ⟨set, absent⟩
  have createOk : call.create = true → (call.index, name) ∉ list.map Attr.key :=
    fun set mem => create ⟨set, found_iff.2 mem⟩
  have behind : xattrHeaderSize + total list -
      (if (!isLast inode.buffer here) = true then entrySize inode.buffer here else 0) =
      xattrHeaderSize + total (edited list call.index name none) := by
    omega
  rw [behind]
  cases valued : call.value with
  | none =>
    rw [if_neg (by simp)]
    refine .inr ⟨name, _, ⟨named, by omega, by omega, by rw [read]; simp, replaceOk, createOk,
      fun some => absurd valued some⟩, removed, ?_, rfl⟩
    have := total_edited_none_le list call.index name
    omega
  | some value =>
    have newTotal : total (edited list call.index name (some value)) =
        total (edited list call.index name none) +
          xattrAlign (4 + name.length + value.length) := by
      rw [edited_some, total_append, total_cons, total_nil]
      rfl
    rw [valued, Option.getD_some] at long
    rw [Option.getD_some]
    by_cases space : minOffset inode.hasInline +
        (if (!isLast inode.buffer here) = true then entrySize inode.buffer here else 0) <
        xattrHeaderSize + total list + xattrAlign (4 + name.length + value.length)
    · rw [if_pos ⟨by simp, space⟩]
      refine .inl ⟨⟨_, rfl⟩, ?_⟩
      intro other admitted
      cases same other admitted
      have := admitted.space (by rw [valued]; simp)
      rw [valued, newTotal] at this
      omega
    · rw [if_neg (fun both => space both.2)]
      have small := maxValueLen_lt inode.hasInline
      have name_le : name.length ≤ 255 := Nat.not_lt.1 long.1
      have fits : (Attr.mk call.index name value).Fits :=
        ⟨call.index_ne, name_le, show value.length < 2 ^ 16 by omega⟩
      have written := removed.write fits
      rw [← edited_some] at written
      refine .inr ⟨name, _, ⟨named, by omega, by rw [valued, Option.getD_some]; omega,
        by rw [read]; simp, replaceOk, createOk, ?_⟩, written, ?_, ?_⟩
      · intro _
        rw [valued, newTotal]
        omega
      · rw [newTotal]
        omega
      · rw [newTotal, Nat.add_assoc]

end Xattr
end F2fs
end StorageStack
