import StorageStack.Pos.MapLookup
import StorageStack.Pos.WellFormed

/-!
# Freeing part of an object

`pos_delete_or_split_vma` takes a range of addresses out of an area.  The file says what that should do
to the addresses and the frames of the object, and when it does: the front and the middle of an area
are never freed, and the back is freed without its frames.
-/

namespace StorageStack.Pos

open IntervalTree

variable {ν : Type} {kernel : Kernel} {junk : Junk}

namespace Store

variable {store other : Store ν} {areas front back : List VmaId} {id : VmaId} {record : RecordId}

/-- An area in the list of the object contains the address, and its map array has the property at the
page of the address. -/
def AtPage (store : Store ν) (record : RecordId) (addr : Nat) (holds : MapArray → Nat → Prop) : Prop :=
  ∃ id ∈ (store.record record).vmList, store.lo id ≤ addr ∧ addr < store.hi id ∧
    holds (store.mapOf id) ((addr - store.lo id) / pageSize)

/-- The address belongs to the object. -/
def Owns (store : Store ν) (record : RecordId) (addr : Nat) : Prop :=
  store.AtPage record addr fun _ _ => True

/-- The address belongs to the object, and its page has the frame. -/
def Backs (store : Store ν) (record : RecordId) (addr pfn : Nat) : Prop :=
  store.AtPage record addr fun map page => map.frameAt page = some pfn

/-- The frames of a range of an area, in the order of the pages. -/
def framesOf (store : Store ν) (id : VmaId) (addr len : Nat) : List Nat :=
  (List.range' ((addr - store.lo id) / pageSize) (len / pageSize)).filterMap
    (store.mapOf id).frameAt

/-- The frames that a call of `pos_delete_or_split_vma` passes to `pos_free_page`: all of an array when
the array is freed, and none in `pos_reduce_map_array`, where the call of `pos_free_page` is commented
out. -/
def freedFrames (junk : Junk) (store : Store ν) (vma : VmaId) (addr len : Nat) : List Nat :=
  let start := store.lo vma
  let stop := store.hi vma
  let last := (addr + len) % 2 ^ 64
  let src := (store.mapOf vma).slot
  if addr < start ∨ stop < addr then []
  else if start = addr then
    if stop - start = len then posFreeMapArray src
    else if stop - start < len then
      let fresh := MapArray.new (posPagesToLevel (pagesBetween last stop)) (last / pageSize)
      match copyPartial junk (last / pageSize) (addr / pageSize) (last / pageSize) src fresh with
      | some (true, _) => posFreeMapArray src
      | _ => []
    else []
  else []

/-- The object around an area: the areas are laid out in address order, those of the object are in its
list, they have whole pages, and every page of the area can have a frame. -/
structure WellFormedObject (kernel : Kernel) (store : Store ν) (front back : List VmaId) (id : VmaId) :
    Prop where
  layout : Layout kernel store (front ++ id :: back)
  listed : (store.record (store.owner id)).vmList =
    store.areasOf (front ++ id :: back) (store.owner id)
  aligned : ∀ area ∈ front ++ id :: back,
    store.lo area % pageSize = 0 ∧ store.hi area % pageSize = 0
  pn : (store.mapOf id).pn = store.lo id / pageSize
  shaped : Shaped (store.mapOf id).level (store.mapOf id).pfns
  pages : (store.hi id - store.lo id) / pageSize ≤ posLevelToPages (store.mapOf id).level
  beyond : ∀ page, (store.hi id - store.lo id) / pageSize ≤ page →
    page < posLevelToPages (store.mapOf id).level → (store.mapOf id).frameAt page = none

/-- The range lies in the area. -/
def Inside (store : Store ν) (id : VmaId) (addr len : Nat) : Prop :=
  store.lo id ≤ addr ∧ addr + len ≤ store.hi id

/-- The call frees exactly the range if it lies in the area, and nothing otherwise. -/
structure FreesRange (kernel : Kernel) (junk : Junk) (store : Store ν) (id : VmaId)
    (prev : Option VmaId) (addr len : Nat) : Prop where
  inside : store.Inside id addr len → ∃ other,
    store.posDeleteOrSplitVma kernel junk (store.owner id) id prev addr len = some (true, other) ∧
      (∀ address, other.Owns (store.owner id) address ↔
        store.Owns (store.owner id) address ∧ ¬(addr ≤ address ∧ address < addr + len)) ∧
      (∀ address pfn, other.Backs (store.owner id) address pfn ↔
        store.Backs (store.owner id) address pfn ∧ ¬(addr ≤ address ∧ address < addr + len)) ∧
      (store.freedFrames junk id addr len).Perm (store.framesOf id addr len)
  outside : ¬store.Inside id addr len →
    store.posDeleteOrSplitVma kernel junk (store.owner id) id prev addr len = some (false, store)

/-- Cutting the area at the address loses no frame: the pages behind it have none, the pages before it
need all levels of the array, and the test of `pos_reduce_map_array` selects no sub-array in which one
of them has a frame. -/
structure CutLosesNothing (store : Store ν) (id : VmaId) (addr : Nat) : Prop where
  bare : ∀ page, (addr - store.lo id) / pageSize ≤ page →
    page < (store.hi id - store.lo id) / pageSize → (store.mapOf id).frameAt page = none
  level : posPagesToLevel ((addr - store.lo id) / pageSize) = (store.mapOf id).level
  kept : ∀ page < (addr - store.lo id) / pageSize, (store.mapOf id).frameAt page ≠ none →
    ¬Clears (store.mapOf id).level (store.mapOf id).pn (addr / pageSize) (store.hi id / pageSize)
      (page / posLevelToPages ((store.mapOf id).level - 1))

/-- When the call does what it should: the range is the whole area, or its back, from which nothing is
lost; and outside the area, it does not start where the area does, and its end does not wrap around. -/
structure FreesWell (store : Store ν) (id : VmaId) (addr len : Nat) : Prop where
  inside : store.Inside id addr len →
    (addr = store.lo id ∧ addr + len = store.hi id) ∨
      (store.lo id < addr ∧ addr + len = store.hi id ∧ store.CutLosesNothing id addr)
  outside : ¬store.Inside id addr len →
    addr ≠ store.lo id ∧ (store.lo id < addr → addr ≤ store.hi id → addr + len < 2 ^ 64)

/-- The cut of the back passes no frame to `pos_free_page`. -/
theorem freedFrames_back {addr len : Nat} (after : store.lo id < addr) :
    store.freedFrames junk id addr len = [] := by
  rw [freedFrames]
  dsimp only
  split
  · rfl
  · rw [if_neg (Nat.ne_of_lt after)]

namespace WellFormedObject

variable (object : WellFormedObject kernel store front back id)

theorem mem : id ∈ front ++ id :: back := List.mem_append_right _ (List.mem_cons_self ..)

include object

theorem proper : store.lo id < store.hi id := object.layout.spaced.2 id mem

theorem hi_lt : store.hi id < 2 ^ 48 := by
  have within := (object.layout.within id mem).2
  have small := kernel.end_le
  rw [Kernel.areaEnd] at within
  omega

/-- The area is in the list of its object. -/
theorem mem_vmList : id ∈ (store.record (store.owner id)).vmList := by
  rw [object.listed]
  exact mem_areasOf.mpr ⟨mem, rfl⟩

/-- The areas of the object are areas of the store. -/
theorem mem_of_vmList {area : VmaId} (member : area ∈ (store.record (store.owner id)).vmList) :
    area ∈ front ++ id :: back := by
  rw [object.listed] at member
  exact (areasOf_sublist _).subset member

/-- The areas of the object do not share an address. -/
theorem eq_of_mem {area : VmaId} {address : Nat}
    (member : area ∈ (store.record (store.owner id)).vmList) (low : store.lo area ≤ address)
    (high : address < store.hi area) (low' : store.lo id ≤ address) (high' : address < store.hi id) :
    area = id :=
  object.layout.eq_of_mem (object.mem_of_vmList member) mem low high low' high'

/-- The map array of the area has levels. -/
theorem exists_level : ∃ level, (store.mapOf id).level = level + 1 := by
  have shaped := object.shaped
  cases eq : (store.mapOf id).level with
  | zero =>
      rw [eq] at shaped
      exact shaped.elim
  | succ level => exact ⟨level, rfl⟩

/-! ## The whole area -/

/-- If the area has left the list of its object, the object has lost the addresses of the area. -/
theorem atPage_erase (listed : (other.record (store.owner id)).vmList =
      (store.record (store.owner id)).vmList.erase id)
    (lo : other.lo = store.lo) (hi : other.hi = store.hi) (mapOf : other.mapOf = store.mapOf)
    (address : Nat) (holds : MapArray → Nat → Prop) :
    other.AtPage (store.owner id) address holds ↔ store.AtPage (store.owner id) address holds ∧
      ¬(store.lo id ≤ address ∧ address < store.hi id) := by
  have nodup : (store.record (store.owner id)).vmList.Nodup := by
    rw [object.listed]
    exact object.layout.nodup.sublist (areasOf_sublist _)
  rw [AtPage, listed, lo, hi, mapOf]
  constructor
  · rintro ⟨area, member, low, high, found⟩
    obtain ⟨ne, old⟩ := nodup.mem_erase_iff.mp member
    exact ⟨⟨area, old, low, high, found⟩,
      fun here => ne (object.eq_of_mem old low high here.1 here.2)⟩
  · rintro ⟨⟨area, old, low, high, found⟩, outside⟩
    refine ⟨area, nodup.mem_erase_iff.mpr ⟨?_, old⟩, low, high, found⟩
    rintro rfl
    exact outside ⟨low, high⟩

/-- The frames of the array are those of the pages of the area. -/
theorem posFreeMapArray_mapOf : posFreeMapArray (store.mapOf id).slot =
    store.framesOf id (store.lo id) (store.hi id - store.lo id) := by
  obtain ⟨level, eq⟩ := object.exists_level
  have shaped := object.shaped
  have pages := object.pages
  have beyond := object.beyond
  rw [eq] at shaped pages beyond
  rw [MapArray.slot, eq, posFreeMapArray_eq level _ shaped, framesOf, Nat.sub_self, Nat.zero_div]
  obtain ⟨more, total⟩ := Nat.exists_eq_add_of_le pages
  have frameAt : (store.mapOf id).frameAt =
      fun page => (wordAt (level + 1) (store.mapOf id).pfns page).frame? := by
    funext page
    rw [MapArray.frameAt, eq]
  rw [total, List.range_eq_range', ← List.range'_append_1, List.filterMap_append, ← frameAt]
  refine List.append_right_eq_self.mpr (List.filterMap_eq_nil_iff.mpr fun page member => ?_)
  obtain ⟨low, high⟩ := List.mem_range'_1.mp member
  exact beyond page (by omega) (by omega)

/-- The whole area is freed as it should be. -/
theorem whole_spec {len : Nat} (stop : store.lo id + len = store.hi id) :
    ∃ other, store.posDeleteOrSplitVma kernel junk (store.owner id) id front.getLast? (store.lo id)
        len = some (true, other) ∧
      (∀ address holds, other.AtPage (store.owner id) address holds ↔
        store.AtPage (store.owner id) address holds ∧
          ¬(store.lo id ≤ address ∧ address < store.lo id + len)) ∧
      store.freedFrames junk id (store.lo id) len = store.framesOf id (store.lo id) len := by
  have whole : store.hi id - store.lo id = len := by omega
  have here : ¬(store.lo id < store.lo id ∨ store.hi id < store.lo id) := by omega
  obtain ⟨_, same, _⟩ := object.layout.posRemoveVmArea_spec
  refine ⟨(store.posRemoveVmArea kernel id front.getLast?).listDel id, ?_, ?_, ?_⟩
  · rw [posDeleteOrSplitVma.eq_def]
    dsimp only
    rw [if_neg here, if_pos rfl, if_pos whole]
  · rw [stop]
    refine object.atPage_erase ?_ same.lo same.hi (funext same.mapArray)
    have owner : ((store.posRemoveVmArea kernel id front.getLast?).vma id).nsRecord =
        store.owner id := same.nsRecord id
    rw [listDel, owner, record_setRecord_self, same.record]
  · rw [freedFrames]
    dsimp only
    rw [if_neg here, if_pos rfl, if_pos whole, object.posFreeMapArray_mapOf, whole]

/-! ## The back of the area -/

/-- The number of pages before the address and the page number of the address. -/
theorem first_page {addr : Nat} (after : store.lo id ≤ addr) :
    addr / pageSize = (store.mapOf id).pn + (addr - store.lo id) / pageSize := by
  have low := (object.aligned id mem).1
  rw [object.pn]
  simp only [pageSize] at low ⊢
  omega

/-- A cut before the last page leaves fewer pages. -/
theorem pages_lt {addr : Nat} (aligned : addr % pageSize = 0) (after : store.lo id < addr)
    (before : addr < store.hi id) :
    (addr - store.lo id) / pageSize < (store.hi id - store.lo id) / pageSize := by
  have low := object.aligned id mem
  simp only [pageSize] at low aligned ⊢
  omega

/-- The cut of the back comes to its end if the pages before it need all levels of the array, and
empties the words that the test of `pos_reduce_map_array` selects. -/
theorem cut_eq {addr len : Nat} (aligned : addr % pageSize = 0) (positive : 0 < len)
    (after : store.lo id < addr) (stop : addr + len = store.hi id) (prev : Option VmaId) :
    ∃ words, store.posDeleteOrSplitVma kernel junk (store.owner id) id prev addr len =
        (if posPagesToLevel ((addr - store.lo id) / pageSize) = (store.mapOf id).level then
          some (true, store.setVma id fun area =>
            { area with
              vmEnd := addr, nrPages := pagesBetween (store.lo id) addr,
              mapArray := { store.mapOf id with pfns := words } })
        else none) ∧
      ∀ page < posLevelToPages (store.mapOf id).level,
        ({ store.mapOf id with pfns := words } : MapArray).frameAt page =
          if Clears (store.mapOf id).level (store.mapOf id).pn (addr / pageSize)
              (store.hi id / pageSize) (page / posLevelToPages ((store.mapOf id).level - 1)) then none
          else (store.mapOf id).frameAt page := by
  obtain ⟨level, eq⟩ := object.exists_level
  have shaped := object.shaped
  have pages := object.pages
  have fewer := object.pages_lt aligned after (by omega)
  have small := object.hi_lt
  rw [eq] at shaped pages
  obtain ⟨words, reduced, emptied, kept⟩ := reduceSlot_spec (addr / pageSize)
    (store.hi id / pageSize) level (store.mapOf id).pn shaped
  refine ⟨words, ?_, fun page inside => ?_⟩
  · have least : posPagesToLevel ((addr - store.lo id) / pageSize) ≤ level + 1 :=
      posPagesToLevel_le (Nat.le_add_left 1 level) (fewer.le.trans pages)
    have between : pagesBetween (store.lo id) addr = (addr - store.lo id) / pageSize :=
      pagesBetween_eq after.le (by omega)
    have last : (addr + len) % 2 ^ 64 = store.hi id := by omega
    have slot : (store.mapOf id).slot =
        .array (level + 1) (store.mapOf id).pn (store.mapOf id).pfns := by
      rw [MapArray.slot, eq]
    rw [posDeleteOrSplitVma.eq_def]
    dsimp only
    rw [if_neg (by omega), if_neg (by omega), last, if_pos rfl, vma_setVma_self]
    dsimp only
    rw [show (store.vma id).mapArray.slot = _ from slot, reduced, between]
    dsimp only
    rw [if_neg (Nat.not_lt.mpr least), MapArray.slot, reduceLevel]
    dsimp only
    by_cases full : posPagesToLevel ((addr - store.lo id) / pageSize) = level + 1
    · rw [if_neg (by omega), eq, if_pos full]
      dsimp only
      rw [setVma_setVma]
    · -- the first sub-array is selected, and gone when the level is reduced
      have lower : posPagesToLevel ((addr - store.lo id) / pageSize) ≤ level := by omega
      have enough : (addr - store.lo id) / pageSize ≤ posLevelToPages level := by
        have le := @le_posPagesToLevel ((addr - store.lo id) / pageSize) (by
          simp only [posMapNr, pageSize]
          omega)
        exact le.trans (Nat.pow_le_pow_right (by decide) lower)
      have one := one_le_posPagesToLevel ((addr - store.lo id) / pageSize)
      have first : Clears (level + 1) (store.mapOf id).pn (addr / pageSize)
          (store.hi id / pageSize) 0 := by
        rw [Clears, if_neg (by omega), touches, decide_eq_true_iff, object.first_page after.le]
        left
        constructor
        · omega
        · rw [Nat.add_sub_cancel, Nat.zero_add, Nat.mul_one]
          omega
      rw [if_pos (by omega), emptied first, eq, if_neg full]
      rfl
  · rw [eq] at inside ⊢
    simp only [MapArray.frameAt, eq]
    rw [kept page inside, Nat.add_sub_cancel]
    split <;> rfl

/-- After the cut an address has the page that it had, if the cut kept what the page holds. -/
theorem atPage_cut {addr nrPages : Nat} {map : MapArray} (aligned : addr % pageSize = 0)
    (after : store.lo id < addr) (before : addr < store.hi id) {holds : MapArray → Nat → Prop}
    (kept : ∀ page < (addr - store.lo id) / pageSize, holds map page ↔ holds (store.mapOf id) page)
    (address : Nat) :
    (store.setVma id fun area =>
        { area with vmEnd := addr, nrPages := nrPages, mapArray := map }).AtPage
          (store.owner id) address holds ↔
      store.AtPage (store.owner id) address holds ∧
        ¬(addr ≤ address ∧ address < store.hi id) := by
  have low := (object.aligned id mem).1
  have page : ∀ address, store.lo id ≤ address → address < addr →
      (address - store.lo id) / pageSize < (addr - store.lo id) / pageSize := by
    intro address first last
    simp only [pageSize] at low aligned ⊢
    omega
  have lo : (store.setVma id fun area =>
      { area with vmEnd := addr, nrPages := nrPages, mapArray := map }).lo = store.lo := by
    rw [lo_setVma]
    exact Function.update_eq_self id store.lo
  rw [AtPage, lo, hi_setVma, mapOf_setVma]
  dsimp only
  constructor
  · rintro ⟨area, member, first, last, found⟩
    by_cases same : area = id
    · subst same
      rw [Function.update_self] at last found
      exact ⟨⟨area, member, first, last.trans before, (kept _ (page _ first last)).mp found⟩,
        fun cut => absurd last (Nat.not_lt.mpr cut.1)⟩
    · rw [Function.update_of_ne same] at last found
      exact ⟨⟨area, member, first, last, found⟩, fun cut =>
        same (object.eq_of_mem member first last (after.le.trans cut.1) cut.2)⟩
  · rintro ⟨⟨area, member, first, last, found⟩, outside⟩
    refine ⟨area, member, ?_⟩
    by_cases same : area = id
    · subst same
      rw [Function.update_self, Function.update_self]
      have short : address < addr := Nat.lt_of_not_le fun past => outside ⟨past, last⟩
      exact ⟨first, short, (kept _ (page _ first short)).mpr found⟩
    · rw [Function.update_of_ne same, Function.update_of_ne same]
      exact ⟨first, last, found⟩

/-- The frames behind the address, if there are none. -/
theorem framesOf_eq_nil_iff {addr len : Nat} (aligned : addr % pageSize = 0)
    (whole : len % pageSize = 0) (after : store.lo id < addr) (stop : addr + len = store.hi id) :
    store.framesOf id addr len = [] ↔ ∀ page, (addr - store.lo id) / pageSize ≤ page →
      page < (store.hi id - store.lo id) / pageSize → (store.mapOf id).frameAt page = none := by
  have count : (store.hi id - store.lo id) / pageSize =
      (addr - store.lo id) / pageSize + len / pageSize := by
    have low := (object.aligned id mem).1
    simp only [pageSize] at low aligned whole ⊢
    omega
  rw [framesOf, List.filterMap_eq_nil_iff, count]
  constructor
  · intro bare page low high
    exact bare page (List.mem_range'_1.mpr ⟨low, high⟩)
  · intro bare page member
    obtain ⟨low, high⟩ := List.mem_range'_1.mp member
    exact bare page low high

/-- A page before the cut that still has its frame was not emptied. -/
theorem kept_of_backs {addr nrPages page pfn : Nat} {map : MapArray} (aligned : addr % pageSize = 0)
    (after : store.lo id < addr) (before : addr < store.hi id)
    (early : page < (addr - store.lo id) / pageSize)
    (backs : (store.setVma id fun area =>
      { area with vmEnd := addr, nrPages := nrPages, mapArray := map }).Backs (store.owner id)
        (store.lo id + page * pageSize) pfn) : map.frameAt page = some pfn := by
  have short : store.lo id + page * pageSize < addr := by
    have low := (object.aligned id mem).1
    simp only [pageSize] at low aligned early ⊢
    omega
  have here : (store.lo id + page * pageSize - store.lo id) / pageSize = page := by
    rw [Nat.add_sub_cancel_left, Nat.mul_div_cancel _ (by decide)]
  obtain ⟨area, member, low, high, found⟩ := backs
  have lo : (store.setVma id fun area =>
      { area with vmEnd := addr, nrPages := nrPages, mapArray := map }).lo = store.lo := by
    rw [lo_setVma]
    exact Function.update_eq_self id store.lo
  rw [lo] at low found
  rw [hi_setVma] at high
  have same : area = id := by
    by_contra ne
    rw [Function.update_of_ne ne] at high
    exact ne (object.eq_of_mem member low high (Nat.le_add_right ..) (short.trans before))
  subst same
  rw [mapOf_setVma, Function.update_self, here] at found
  exact found

/-- The back of the area is freed as it should be exactly if the cut loses nothing. -/
theorem back_iff {addr len : Nat} (aligned : addr % pageSize = 0) (whole : len % pageSize = 0)
    (positive : 0 < len) (after : store.lo id < addr) (stop : addr + len = store.hi id) :
    (∃ other, store.posDeleteOrSplitVma kernel junk (store.owner id) id front.getLast? addr len =
        some (true, other) ∧
      (∀ address, other.Owns (store.owner id) address ↔
        store.Owns (store.owner id) address ∧ ¬(addr ≤ address ∧ address < addr + len)) ∧
      (∀ address pfn, other.Backs (store.owner id) address pfn ↔
        store.Backs (store.owner id) address pfn ∧ ¬(addr ≤ address ∧ address < addr + len)) ∧
      (store.freedFrames junk id addr len).Perm (store.framesOf id addr len)) ↔
    store.CutLosesNothing id addr := by
  have before : addr < store.hi id := by omega
  obtain ⟨words, result, frameAt⟩ :=
    @cut_eq _ _ junk _ _ _ _ object _ _ aligned positive after stop front.getLast?
  have fewer := (object.pages_lt aligned after before).trans_le object.pages
  rw [freedFrames_back after, List.nil_perm, object.framesOf_eq_nil_iff aligned whole after stop,
    result, stop]
  constructor
  · rintro ⟨other, done, _, backs, bare⟩
    have level : posPagesToLevel ((addr - store.lo id) / pageSize) = (store.mapOf id).level := by
      by_contra lower
      rw [if_neg lower] at done
      cases done
    rw [if_pos level] at done
    cases done
    refine ⟨bare, level, fun page early framed clears => ?_⟩
    obtain ⟨pfn, frame⟩ := Option.ne_none_iff_exists'.mp framed
    have low := (object.aligned id mem).1
    have short : store.lo id + page * pageSize < addr := by
      simp only [pageSize] at low aligned early ⊢
      omega
    have still := object.kept_of_backs aligned after before early
      ((backs (store.lo id + page * pageSize) pfn).mpr ⟨⟨id, object.mem_vmList,
        Nat.le_add_right .., short.trans before, by
          rw [Nat.add_sub_cancel_left, Nat.mul_div_cancel _ (by decide)]
          exact frame⟩, fun cut => absurd short (Nat.not_lt.mpr cut.1)⟩)
    rw [frameAt page (early.trans fewer), if_pos clears] at still
    cases still
  · rintro ⟨bare, level, kept⟩
    rw [if_pos level]
    refine ⟨_, rfl, object.atPage_cut aligned after before fun _ _ => Iff.rfl,
      fun address pfn => object.atPage_cut aligned after before (fun page early => ?_) address, bare⟩
    rw [frameAt page (early.trans fewer)]
    split
    · next clears =>
        have none := not_imp_not.mp (kept page early) clears
        rw [none]
    · exact Iff.rfl

end WellFormedObject

/-! ## The middle of the area -/

theorem mem_linkMiddle {area : VmaId} : ∀ {areas : List VmaId},
    area ∈ store.linkMiddle id areas → area ∈ areas ∨ area = id
  | [], member => Or.inl member
  | [_], member => Or.inl member
  | prev :: next :: rest, member => by
      rw [linkMiddle] at member
      split at member
      · simp only [List.mem_cons] at member ⊢
        tauto
      · rcases List.mem_cons.mp member with rfl | later
        · exact Or.inl (List.mem_cons_self ..)
        · rcases mem_linkMiddle later with old | new
          · exact Or.inl (List.mem_cons_of_mem _ old)
          · exact Or.inr new

/-- `pos_vma_link_list2` adds at most the new area to the list. -/
theorem mem_posVmaLinkList2 {area : VmaId}
    (member : area ∈ ((store.posVmaLinkList2 record id).record record).vmList) :
    area ∈ (store.record record).vmList ∨ area = id := by
  rw [posVmaLinkList2, record_setRecord_self] at member
  dsimp only at member
  split at member
  · simpa using member
  · split at member
    · rcases List.mem_cons.mp member with new | old
      · exact Or.inr new
      · exact Or.inl old
    · exact mem_linkMiddle member

/-- What the split of an area leaves: the old area up to the address, and a new area that ends there
too. -/
structure SplitOff (store other : Store ν) (id : VmaId) (addr : Nat) : Prop where
  nextVma : other.nextVma = store.nextVma + 1
  listed : ∀ area ∈ (other.record (store.owner id)).vmList,
    area ∈ (store.record (store.owner id)).vmList ∨ area = store.nextVma
  lo : ∀ area, area ≠ store.nextVma → other.lo area = store.lo area
  hi : ∀ area, area ≠ id → area ≠ store.nextVma → other.hi area = store.hi area
  cut : other.hi id = addr
  new : other.hi store.nextVma = addr

theorem bounds_setMap (area : VmaId) (map : MapArray) :
    (store.setVma area fun area => { area with mapArray := map }).lo = store.lo ∧
      (store.setVma area fun area => { area with mapArray := map }).hi = store.hi := by
  rw [lo_setVma, hi_setVma]
  exact ⟨Function.update_eq_self area store.lo, Function.update_eq_self area store.hi⟩

/-- The map arrays do not matter for this. -/
theorem SplitOff.setMap {addr : Nat} (split : SplitOff store other id addr) (area : VmaId)
    (map : MapArray) :
    SplitOff store (other.setVma area fun area => { area with mapArray := map }) id addr := by
  obtain ⟨lo, hi⟩ := @bounds_setMap ν other area map
  exact {
    nextVma := split.nextVma
    listed := split.listed
    lo := by
      rw [lo]
      exact split.lo
    hi := by
      rw [hi]
      exact split.hi
    cut := by
      rw [hi]
      exact split.cut
    new := by
      rw [hi]
      exact split.new }

/-- Cutting an area and linking a new one with the same end splits. -/
theorem splitOff_link {addr nrPages : Nat} {fresh : VmArea} (known : id ≠ store.nextVma)
    (stop : fresh.vmEnd = addr) :
    SplitOff store ((((store.setVma id fun area =>
        { area with vmEnd := addr, nrPages := nrPages }).newVma fresh).posInsertVmArea kernel
          store.nextVma).posVmaLinkList2 (store.owner id) store.nextVma) id addr := by
  generalize cutEq : (store.setVma id fun area =>
    { area with vmEnd := addr, nrPages := nrPages }) = cut
  have cutLo : cut.lo = store.lo := by
    rw [← cutEq, lo_setVma]
    exact Function.update_eq_self id store.lo
  have cutHi : cut.hi = Function.update store.hi id addr := by
    rw [← cutEq, hi_setVma]
  have cutRecord : cut.record = store.record := by
    rw [← cutEq]
    rfl
  have cutNext : cut.nextVma = store.nextVma := by
    rw [← cutEq]
    rfl
  generalize writtenEq : cut.newVma fresh = written
  have same := @relinked_posInsertVmArea ν kernel written store.nextVma
  generalize written.posInsertVmArea kernel store.nextVma = inserted at same ⊢
  have vma : written.vma = Function.update cut.vma store.nextVma fresh := by
    rw [← writtenEq, ← cutNext]
    rfl
  have lo : ∀ area, area ≠ store.nextVma → inserted.lo area = cut.lo area := by
    intro area ne
    rw [same.lo, Store.lo, vma, Function.update_of_ne ne]
    rfl
  have hi : ∀ area, area ≠ store.nextVma → inserted.hi area = cut.hi area := by
    intro area ne
    rw [same.hi, Store.hi, vma, Function.update_of_ne ne]
    rfl
  exact {
    nextVma := by
      rw [← cutNext, ← show written.nextVma = cut.nextVma + 1 from writtenEq ▸ rfl, ← same.nextVma]
      rfl
    listed := fun area member => by
      have record : inserted.record = store.record := by
        rw [same.record, ← cutRecord, ← writtenEq]
        rfl
      rw [← record]
      exact mem_posVmaLinkList2 member
    lo := fun area ne => by
      rw [← cutLo]
      exact lo area ne
    hi := fun area other ne => by
      rw [← Function.update_of_ne other addr store.hi, ← cutHi]
      exact hi area ne
    cut := by
      refine (hi id known).trans ?_
      rw [cutHi, Function.update_self]
    new := by
      have eq : inserted.hi store.nextVma = addr := by
        rw [same.hi, Store.hi, vma, Function.update_self, stop]
      exact eq }

/-- A split that comes to an end leaves a new area without addresses. -/
theorem split_spec {prev : Option VmaId} {addr len : Nat} {done : Bool}
    (known : id ≠ store.nextVma) (after : store.lo id < addr) (before : addr ≤ store.hi id)
    (middle : (addr + len) % 2 ^ 64 < store.hi id)
    (result : store.posDeleteOrSplitVma kernel junk (store.owner id) id prev addr len =
      some (done, other)) : SplitOff store other id addr := by
  have cutEnd : (store.setVma id fun area =>
      { area with vmEnd := addr, nrPages := pagesBetween (store.lo id) addr }).hi id = addr := by
    rw [hi_setVma, Function.update_self]
  rw [posDeleteOrSplitVma.eq_def] at result
  dsimp only at result
  rw [if_neg (by omega), if_neg (by omega), if_neg (by omega), if_pos middle, cutEnd] at result
  have linked := fun fresh stop => @splitOff_link ν kernel store id addr
    (pagesBetween (store.lo id) addr) fresh known stop
  split at result
  · cases result
  · cases result
    exact (linked _ rfl).setMap ..
  · split at result
    · cases result
    · split at result
      · cases result
        exact ((linked _ rfl).setMap ..).setMap ..
      · split at result
        · cases result
        · cases result
          exact ((linked _ rfl).setMap ..).setMap ..

/-- The front of an area is not freed. -/
theorem front_refused {len : Nat} (short : store.lo id + len < store.hi id)
    (prev : Option VmaId) :
    store.posDeleteOrSplitVma kernel junk (store.owner id) id prev (store.lo id) len =
      some (false, store) := by
  rw [posDeleteOrSplitVma.eq_def]
  dsimp only
  rw [if_neg (by omega), if_pos rfl, if_neg (by omega), if_neg (by omega)]

namespace WellFormedObject

variable (object : WellFormedObject kernel store front back id)
include object

theorem ne_nextVma : id ≠ store.nextVma := Nat.ne_of_lt (object.layout.fresh id mem)

/-- After a split the object has lost the last address of the area. -/
theorem not_owns_last {addr : Nat} (split : SplitOff store other id addr)
    (before : addr < store.hi id) : ¬other.Owns (store.owner id) (store.hi id - 1) := by
  rintro ⟨area, member, low, high, _⟩
  by_cases new : area = store.nextVma
  · rw [new, split.new] at high
    omega
  · have old := (split.listed area member).resolve_right new
    by_cases same : area = id
    · rw [same, split.cut] at high
      omega
    · have proper := object.proper
      rw [split.lo area new] at low
      rw [split.hi area same new] at high
      exact same (object.eq_of_mem old low high (by omega) (by omega))

/-- A range from the start of the area to past its end moves the start of the area. -/
theorem start_moved {len : Nat} (positive : 0 < len) (small : len < 2 ^ 64)
    (past : store.hi id < store.lo id + len) (prev : Option VmaId) :
    store.posDeleteOrSplitVma kernel junk (store.owner id) id prev (store.lo id) len ≠
      some (false, store) := by
  have proper := object.proper
  have bound := object.hi_lt
  rw [posDeleteOrSplitVma.eq_def]
  dsimp only
  rw [if_neg (by omega), if_pos rfl, if_neg (by omega), if_pos (by omega)]
  split
  · exact (Option.some_ne_none _).symm
  · next map _ =>
      intro result
      have same := congrArg (fun out => out.map fun out => out.2.lo id) result
      simp only [Option.map_some, Option.some.injEq] at same
      rw [(bounds_setMap id map).1, lo_setVma, Function.update_self] at same
      dsimp only at same
      omega

/-- A range in the area is freed as it should be exactly if it is the whole area, or the back of the
area and the cut loses nothing. -/
theorem inside_iff {addr len : Nat} (aligned : addr % pageSize = 0) (whole : len % pageSize = 0)
    (positive : 0 < len) (inside : store.Inside id addr len) :
    (∃ other, store.posDeleteOrSplitVma kernel junk (store.owner id) id front.getLast? addr len =
        some (true, other) ∧
      (∀ address, other.Owns (store.owner id) address ↔
        store.Owns (store.owner id) address ∧ ¬(addr ≤ address ∧ address < addr + len)) ∧
      (∀ address pfn, other.Backs (store.owner id) address pfn ↔
        store.Backs (store.owner id) address pfn ∧ ¬(addr ≤ address ∧ address < addr + len)) ∧
      (store.freedFrames junk id addr len).Perm (store.framesOf id addr len)) ↔
    (addr = store.lo id ∧ addr + len = store.hi id) ∨
      (store.lo id < addr ∧ addr + len = store.hi id ∧ store.CutLosesNothing id addr) := by
  obtain ⟨low, high⟩ := inside
  have bound := object.hi_lt
  rcases Nat.eq_or_lt_of_le low with rfl | after
  · rcases Nat.eq_or_lt_of_le high with stop | short
    · obtain ⟨other, result, kept, freed⟩ := @whole_spec _ _ junk _ _ _ _ object _ stop
      refine iff_of_true ⟨other, result, fun address => kept address _,
        fun address pfn => kept address _, ?_⟩ (Or.inl ⟨rfl, stop⟩)
      rw [freed]
    · refine iff_of_false ?_ ?_
      · rintro ⟨other, result, _⟩
        rw [front_refused short] at result
        cases result
      · rintro (⟨_, stop⟩ | ⟨after, _⟩)
        · omega
        · omega
  · rcases Nat.eq_or_lt_of_le high with stop | short
    · rw [object.back_iff aligned whole positive after stop]
      constructor
      · exact fun nothing => Or.inr ⟨after, stop, nothing⟩
      · rintro (⟨start, _⟩ | ⟨_, _, nothing⟩)
        · omega
        · exact nothing
    · refine iff_of_false ?_ ?_
      · rintro ⟨other, result, owns, _⟩
        have split := split_spec object.ne_nextVma after (by omega) (by omega) result
        refine object.not_owns_last split (by omega) ((owns _).mpr ⟨⟨id, object.mem_vmList, ?_, ?_,
          trivial⟩, fun here => ?_⟩)
        · omega
        · omega
        · omega
      · rintro (⟨_, stop⟩ | ⟨_, stop, _⟩)
        · omega
        · omega

/-- A range that is not in the area is refused exactly if it does not start where the area does and its
end does not wrap around. -/
theorem outside_iff {addr len : Nat} (positive : 0 < len) (small : len < 2 ^ 64)
    (outside : ¬store.Inside id addr len) (prev : Option VmaId) :
    store.posDeleteOrSplitVma kernel junk (store.owner id) id prev addr len = some (false, store) ↔
      addr ≠ store.lo id ∧ (store.lo id < addr → addr ≤ store.hi id → addr + len < 2 ^ 64) := by
  have bound := object.hi_lt
  have past : store.lo id ≤ addr → store.hi id < addr + len := fun low =>
    Nat.lt_of_not_le fun high => outside ⟨low, high⟩
  constructor
  · intro refused
    constructor
    · rintro rfl
      exact object.start_moved positive small (past le_rfl) prev refused
    · intro after before
      by_contra wraps
      have split := split_spec object.ne_nextVma after before (by omega) refused
      exact Nat.ne_of_lt (Nat.lt_succ_self _) split.nextVma
  · rintro ⟨ne, noWrap⟩
    rw [posDeleteOrSplitVma.eq_def]
    dsimp only
    by_cases away : addr < store.lo id ∨ store.hi id < addr
    · rw [if_pos away]
    · have low : store.lo id < addr := by omega
      have ends := past low.le
      have noWrap' := noWrap low (by omega)
      rw [if_neg away, if_neg (by omega), if_neg (by omega), if_neg (by omega)]

end WellFormedObject

/-- Freeing a range of pages takes exactly the range out of the object, and does nothing if the range
is not in the area, exactly if the range is the whole area or a back without frames whose cut loses
nothing, and if the one outside the area does not take a wrong branch. -/
theorem freesRange_iff (object : WellFormedObject kernel store front back id) {addr len : Nat}
    (aligned : addr % pageSize = 0) (whole : len % pageSize = 0) (positive : 0 < len)
    (small : len < 2 ^ 64) :
    store.FreesRange kernel junk id front.getLast? addr len ↔ store.FreesWell id addr len := by
  constructor
  · intro frees
    exact ⟨fun inside => (object.inside_iff aligned whole positive inside).mp (frees.inside inside),
      fun outside =>
        (object.outside_iff positive small outside _).mp (frees.outside outside)⟩
  · intro well
    exact ⟨fun inside => (object.inside_iff aligned whole positive inside).mpr (well.inside inside),
      fun outside =>
        (object.outside_iff positive small outside _).mpr (well.outside outside)⟩

/-! ## An object of two pages -/

/-- The map array of two pages, the first of which has a frame. -/
def oneFrame (kernel : Kernel) : MapArray where
  level := 1
  pn := kernel.areaStart / pageSize
  pfns i := if i = 0 then .frame 7 else .empty

/-- A store with one object of two pages. -/
def twoPages (kernel : Kernel) : Store Unit where
  sb := {
    rb := .node .leaf 0 .leaf, vmNext := some 0, findCache := none, cachedHoleSize := 0,
    freeAreaCache := 0, nsCount := 1, totalVm := 2, vmCount := 1, names := [((), 0)] }
  vma _ := {
    vmStart := kernel.areaStart, vmEnd := kernel.areaStart + 2 * pageSize, nrPages := 2,
    mapArray := oneFrame kernel, nsRecord := 0, vmNext := none }
  record _ := ⟨[0], 0, 0, 0, 0, []⟩
  nextVma := 1
  nextRecord := 1

theorem frameAt_oneFrame (kernel : Kernel) {page : Nat} (later : 1 ≤ page) :
    (oneFrame kernel).frameAt page = none := by
  have word : wordAt 1 (oneFrame kernel).pfns page = .empty := if_neg (Nat.ne_of_gt later)
  rw [MapArray.frameAt, show (oneFrame kernel).level = 1 from rfl, word]
  rfl

theorem pages_twoPages (kernel : Kernel) :
    ((twoPages kernel).hi 0 - (twoPages kernel).lo 0) / pageSize = 2 := by
  have count : (twoPages kernel).hi 0 - (twoPages kernel).lo 0 = 2 * pageSize :=
    Nat.add_sub_cancel_left ..
  rw [count]
  rfl

theorem twoPages_wellFormed (kernel : Kernel) :
    WellFormedObject kernel (twoPages kernel) [] [] 0 where
  layout := {
    chain := ⟨rfl, rfl⟩
    inorder := rfl
    spaced := by
      have proper : kernel.areaStart < kernel.areaStart + 2 * pageSize := by
        rw [pageSize]
        omega
      exact ⟨List.pairwise_singleton _ 0, fun _ _ => proper⟩
    within := fun _ _ => by
      have room : 2 * pageSize ≤ posAreaSize := by decide
      refine ⟨le_rfl, (Nat.add_le_add_left room kernel.areaStart).trans ?_⟩
      rw [Kernel.areaEnd, Nat.add_comm]
    fresh := fun id member => by
      rw [List.mem_singleton.mp member]
      exact Nat.zero_lt_one
    cached := fun _ hit => nomatch hit }
  listed := rfl
  aligned _ _ :=
    ⟨kernel.start_aligned, (Nat.add_mul_mod_self_right ..).trans kernel.start_aligned⟩
  pn := rfl
  shaped i _ := by
    by_cases first : i = 0
    · exact Or.inr ⟨7, if_pos first⟩
    · exact Or.inl (if_neg first)
  pages := by
    rw [pages_twoPages]
    exact (by decide : 2 ≤ posLevelToPages 1)
  beyond page low _ := by
    rw [pages_twoPages] at low
    exact frameAt_oneFrame kernel (by omega)

/-- The second page is freed as it should be. -/
theorem freesRange_iff_second_page : (twoPages World.plainKernel).FreesRange World.plainKernel
    World.zeroJunk 0 none (World.plainKernel.areaStart + 1 * pageSize) (1 * pageSize) := by
  have aligned := (Nat.add_mul_mod_self_right World.plainKernel.areaStart 1 pageSize).trans
    World.plainKernel.start_aligned
  have stop : World.plainKernel.areaStart + 1 * pageSize + 1 * pageSize =
      (twoPages World.plainKernel).hi 0 := by
    rw [Nat.add_assoc, ← Nat.add_mul]
    rfl
  refine (freesRange_iff (twoPages_wellFormed World.plainKernel) aligned (by decide) (by decide)
    (by decide)).mpr ⟨fun _ => Or.inr ⟨Nat.lt_add_of_pos_right (by decide), stop, ?_⟩,
      fun outside => absurd ⟨Nat.le_add_right .., stop.le⟩ outside⟩
  have first : (World.plainKernel.areaStart + 1 * pageSize - (twoPages World.plainKernel).lo 0) /
      pageSize = 1 := by
    have count : World.plainKernel.areaStart + 1 * pageSize - (twoPages World.plainKernel).lo 0 =
        1 * pageSize := Nat.add_sub_cancel_left ..
    rw [count]
    rfl
  refine ⟨fun page low _ => ?_, ?_, fun page early _ clears => ?_⟩
  · rw [first] at low
    exact frameAt_oneFrame _ low
  · rw [first]
    rfl
  · rw [first] at early
    obtain rfl : page = 0 := by omega
    have page : (World.plainKernel.areaStart + 1 * pageSize) / pageSize =
        World.plainKernel.areaStart / pageSize + 1 := Nat.add_mul_div_right _ _ (by decide)
    have range : (World.plainKernel.areaStart + 1 * pageSize) / pageSize ≤
        World.plainKernel.areaStart / pageSize := clears.1
    omega

/-- The first page is not freed. -/
theorem first_page_not_freed : ¬∀ addr len : Nat, addr % pageSize = 0 → len % pageSize = 0 →
    0 < len → len < 2 ^ 64 → (twoPages World.plainKernel).FreesRange World.plainKernel
      World.zeroJunk 0 none addr len := by
  intro frees
  have short : (twoPages World.plainKernel).lo 0 + 1 * pageSize <
      (twoPages World.plainKernel).hi 0 := Nat.add_lt_add_left (by decide) _
  obtain ⟨other, result, _⟩ := (frees ((twoPages World.plainKernel).lo 0) (1 * pageSize)
    World.plainKernel.start_aligned (by decide) (by decide) (by decide)).inside ⟨le_rfl, short.le⟩
  rw [front_refused short] at result
  cases result

end Store

end StorageStack.Pos
