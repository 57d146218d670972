import StorageStack.Pos.AreaLayout

/-!
# Growing and shrinking objects

What the functions that allocate and free a segment do to the areas: which addresses an object has,
which areas are in its list, and what happens to the map arrays when no page has been touched.
-/

namespace StorageStack.Pos

open IntervalTree LinkedChain

/-! ## Map arrays of untouched areas -/

/-- The map array of an area without frames: its first page number is the area's, and its levels are
enough for the area's pages. -/
structure MapArray.Vacant (map : MapArray) (start stop : Nat) : Prop where
  pn : map.pn = start / pageSize
  pages : (stop - start) / pageSize ≤ posMapNr ^ map.level
  vacant : ∀ i, map.pfns i = .empty

theorem le_pagesToLevelFrom (nrPages rounds : Nat) : ∀ level,
    nrPages ≤ posMapNr ^ (level + rounds) →
      nrPages ≤ posMapNr ^ pagesToLevelFrom nrPages rounds level (posMapNr ^ level) := by
  induction rounds with
  | zero =>
      intro level enough
      exact enough
  | succ rounds ih =>
      intro level enough
      rw [pagesToLevelFrom]
      by_cases more : posMapNr ^ level < nrPages
      · rw [if_pos more, ← pow_succ]
        exact ih (level + 1) (by rwa [Nat.add_assoc, Nat.add_comm 1])
      · rw [if_neg more]
        exact Nat.le_of_not_lt more

/-- The level that `pos_pages_to_level` gives is enough. -/
theorem le_posPagesToLevel {nrPages : Nat} (bound : nrPages ≤ posMapNr ^ 10) :
    nrPages ≤ posMapNr ^ posPagesToLevel nrPages := by
  have enough := le_pagesToLevelFrom nrPages 9 1 bound
  rwa [pow_one] at enough

theorem copyAndFree_vacant (junk : Junk) (start level pn : Nat) {pfns : Nat → Slot}
    (vacant : ∀ i, pfns i = .empty) (dst : MapArray) :
    copyAndFree junk start (.array level pn pfns) dst = some (true, dst) := by
  rw [copyAndFree]
  refine List.foldlRecOn (List.range posMapNr) _ (motive := fun state => state = some (true, dst))
    rfl fun state same i _ => ?_
  subst same
  simp [vacant i, Slot.used]

/-- Merging an untouched map array into one with enough levels changes nothing. -/
theorem posMergeMapArray_vacant (junk : Junk) {nrPages : Nat} (start : Nat) {dst : MapArray}
    {src : Option MapArray} (enough : posPagesToLevel nrPages ≤ dst.level)
    (vacant : ∀ map, src = some map → ∀ i, map.pfns i = .empty) :
    posMergeMapArray junk nrPages start dst src = some (true, dst) := by
  rw [posMergeMapArray.eq_def]
  dsimp only
  rw [if_neg (Nat.not_lt.mpr enough)]
  cases src with
  | none => rfl
  | some map => exact copyAndFree_vacant junk start map.level map.pn (vacant map rfl) dst

theorem reduceSlot_vacant {map : MapArray} (firstPn lastPn : Nat)
    (vacant : ∀ i, map.pfns i = .empty) {reduced : MapArray}
    (result : reduceSlot firstPn lastPn map.slot = some reduced) : reduced = map := by
  have same : ∀ keep : Nat → Prop, ∀ decidable : DecidablePred keep,
      (fun i => if keep i then Slot.empty else map.pfns i) = map.pfns := by
    intro keep _
    funext i
    rw [vacant i, ite_self]
  rw [MapArray.slot, reduceSlot] at result
  split at result
  · cases result
    rw [same]
  · split at result
    · cases result
      rw [same]
    · cases result

theorem reduceLevel_vacant {map : MapArray} (level : Nat) (vacant : ∀ i, map.pfns i = .empty)
    {reduced : MapArray} (result : reduceLevel level map.slot = some reduced) : reduced = map := by
  rw [MapArray.slot, reduceLevel] at result
  split at result
  · rw [vacant 0] at result
    cases result
  · cases result
    rfl

/-- A shorter area needs no more pages. -/
theorem MapArray.Vacant.mono {map : MapArray} {start stop stop' : Nat}
    (vacant : map.Vacant start stop) (le : stop' ≤ stop) : map.Vacant start stop' where
  pn := vacant.pn
  pages := (Nat.div_le_div_right (Nat.sub_le_sub_right le start)).trans vacant.pages
  vacant := vacant.vacant

namespace Store

variable {ν : Type} {kernel : Kernel} {junk : Junk} {store other : Store ν}
  {areas areas' front back : List VmaId} {id : VmaId} {record : RecordId}

/-- The object of an area. -/
def owner (store : Store ν) (id : VmaId) : RecordId := (store.vma id).nsRecord

/-- The map array of an area. -/
def mapOf (store : Store ν) (id : VmaId) : MapArray := (store.vma id).mapArray

/-- The areas of an object. -/
def areasOf (store : Store ν) (areas : List VmaId) (record : RecordId) : List VmaId :=
  areas.filter fun id => store.owner id = record

/-- An area of the object contains the address. -/
def Covers (store : Store ν) (areas : List VmaId) (record : RecordId) (addr : Nat) : Prop :=
  ∃ id ∈ areas, store.owner id = record ∧ store.lo id ≤ addr ∧ addr < store.hi id

/-- No page of an area has been touched. -/
def Untouched (store : Store ν) (areas : List VmaId) : Prop :=
  ∀ id ∈ areas, (store.mapOf id).Vacant (store.lo id) (store.hi id)

/-- A change of the areas of one object, after which each object has the addresses that `covers`
gives. -/
structure Changed (kernel : Kernel) (store : Store ν) (areas : List VmaId) (record : RecordId)
    (other : Store ν) (areas' : List VmaId) (covers : RecordId → Nat → Prop) : Prop where
  layout : Layout kernel other areas'
  covers : ∀ object addr, Covers other areas' object addr ↔ covers object addr
  owned : ∀ id ∈ areas', other.owner id = record ∨ ∃ old ∈ areas, store.owner old = other.owner id
  listed : ∀ object, (store.record object).vmList = store.areasOf areas object →
    (other.record object).vmList = other.areasOf areas' object
  records : ∀ object, { other.record object with vmList := [] } =
    { store.record object with vmList := [] }
  names : other.sb.names = store.sb.names
  nsCount : other.sb.nsCount = store.sb.nsCount
  nextRecord : other.nextRecord = store.nextRecord

theorem owner_setVma (id : VmaId) (change : VmArea → VmArea) :
    (store.setVma id change).owner =
      Function.update store.owner id (change (store.vma id)).nsRecord := by
  funext other
  by_cases same : other = id
  · subst same
    simp [owner, setVma]
  · simp [owner, setVma, same]

theorem mapOf_setVma (id : VmaId) (change : VmArea → VmArea) :
    (store.setVma id change).mapOf =
      Function.update store.mapOf id (change (store.vma id)).mapArray := by
  funext other
  by_cases same : other = id
  · subst same
    simp [mapOf, setVma]
  · simp [mapOf, setVma, same]

theorem record_setRecord_self (record : RecordId) (change : NsRecord → NsRecord) :
    (store.setRecord record change).record record = change (store.record record) :=
  Function.update_self ..

theorem record_setRecord_of_ne {object : RecordId} (ne : object ≠ record)
    (change : NsRecord → NsRecord) :
    (store.setRecord record change).record object = store.record object :=
  Function.update_of_ne ne ..

theorem vma_setVma_self (id : VmaId) (change : VmArea → VmArea) :
    (store.setVma id change).vma id = change (store.vma id) :=
  Function.update_self ..

theorem pagesBetween_eq {start stop : Nat} (le : start ≤ stop) (bound : stop < 2 ^ 64) :
    pagesBetween start stop = (stop - start) / pageSize := by
  rw [pagesBetween]
  congr 1
  omega

/-! ## The list of an object -/

/-- `pos_vma_link_list2` links between the areas on both sides. -/
theorem linkMiddle_eq (proper : store.lo id < store.hi id) (rest : List VmaId) :
    ∀ prev, Spaced store.lo store.hi (prev :: rest) → store.hi prev ≤ store.lo id →
      (∃ later ∈ rest, store.lo id < store.hi later) →
      (∀ other ∈ rest, store.hi other ≤ store.lo id ∨ store.hi id ≤ store.lo other) →
      store.linkMiddle id (prev :: rest) = before store.hi (store.lo id) (prev :: rest) ++
        id :: behind store.hi (store.lo id) (prev :: rest) := by
  induction rest with
  | nil =>
      rintro prev _ _ ⟨_, member, _⟩
      cases member
  | cons next rest ih =>
      intro prev spaced ends past free
      obtain ⟨_, tail, _⟩ := Spaced.cons_iff.mp spaced
      obtain ⟨nextProper, tail', later⟩ := Spaced.cons_iff.mp tail
      rw [linkMiddle, before_cons_of_le ends, behind_cons_of_le ends, List.cons_append]
      rcases free next (List.mem_cons_self ..) with early | late
      · rw [if_neg (by omega), ih next tail early ?_ fun other member =>
          free other (List.mem_cons_of_mem _ member)]
        obtain ⟨other, member, here⟩ := past
        rcases List.mem_cons.mp member with rfl | inRest
        · omega
        · exact ⟨other, inRest, here⟩
      · have pasts : ∀ other ∈ next :: rest, store.lo id < store.hi other := by
          intro other member
          rcases List.mem_cons.mp member with rfl | inRest
          · omega
          · have order := later other inRest
            have proper' := tail'.2 other inRest
            omega
        rw [if_pos ⟨ends, late⟩, before_eq_nil pasts, behind_eq_self pasts, List.nil_append]

/-- `pos_vma_link_list2` keeps the list of an object in address order. -/
theorem posVmaLinkList2_eq (proper : store.lo id < store.hi id)
    (spaced : Spaced store.lo store.hi (store.record record).vmList)
    (nonempty : (store.record record).vmList ≠ [])
    (free : ∀ other ∈ (store.record record).vmList,
      store.hi other ≤ store.lo id ∨ store.hi id ≤ store.lo other) :
    store.posVmaLinkList2 record id = store.setRecord record fun desc =>
      { desc with vmList := before store.hi (store.lo id) (store.record record).vmList ++
        id :: behind store.hi (store.lo id) (store.record record).vmList } := by
  rw [posVmaLinkList2]
  congr 1
  funext desc
  congr 1
  generalize (store.record record).vmList = items at *
  obtain ⟨first, rest, rfl⟩ := List.exists_cons_of_ne_nil nonempty
  obtain ⟨_, _, later⟩ := Spaced.cons_iff.mp spaced
  obtain ⟨last, lastEq⟩ : ∃ last, (first :: rest).getLast? = some last :=
    ⟨_, List.getLast?_eq_some_getLast (List.cons_ne_nil first rest)⟩
  obtain ⟨init, initEq⟩ := List.getLast?_eq_some_iff.mp lastEq
  rw [lastEq]
  simp only [Option.map_some, Option.any_some, decide_eq_true_eq, List.head?_cons]
  by_cases atEnd : store.hi last ≤ store.lo id
  · have ends : ∀ other ∈ first :: rest, store.hi other ≤ store.lo id := by
      intro other member
      rw [initEq] at member spaced
      rcases List.mem_append.mp member with inInit | isLast
      · have order := (Spaced.append_iff.mp spaced).2.2 other inInit last (List.mem_singleton_self _)
        have proper' := spaced.2 last (by simp)
        omega
      · rw [List.mem_singleton.mp isLast]
        exact atEnd
    rw [if_pos atEnd, before_eq_self ends, behind_eq_nil ends]
  · rw [if_neg atEnd]
    by_cases atStart : store.hi id ≤ store.lo first
    · have pasts : ∀ other ∈ first :: rest, store.lo id < store.hi other := by
        intro other member
        have proper' := spaced.2 other member
        rcases List.mem_cons.mp member with rfl | inRest
        · omega
        · have order := later other inRest
          have firstProper := spaced.2 first (List.mem_cons_self ..)
          omega
      rw [if_pos atStart, before_eq_nil pasts, behind_eq_self pasts, List.nil_append]
    · rw [if_neg atStart]
      have ends : store.hi first ≤ store.lo id :=
        (free first (List.mem_cons_self ..)).resolve_right atStart
      refine linkMiddle_eq proper rest first spaced ends ⟨last, ?_, by omega⟩ fun other member =>
        free other (List.mem_cons_of_mem _ member)
      have member : last ∈ first :: rest := by
        rw [initEq]
        simp
      rcases List.mem_cons.mp member with rfl | inRest
      · exact absurd ends atEnd
      · exact inRest

theorem areasOf_congr (same : ∀ id ∈ areas, other.owner id = store.owner id) (object : RecordId) :
    other.areasOf areas object = store.areasOf areas object := by
  refine List.filter_congr fun id member => ?_
  rw [same id member]

theorem areasOf_insert (owned : store.owner id = record) (hi : VmaId → Nat) (addr : Nat) :
    store.areasOf (before hi addr areas ++ id :: behind hi addr areas) record =
      before hi addr (store.areasOf areas record) ++
        id :: behind hi addr (store.areasOf areas record) := by
  rw [areasOf, List.filter_append, List.filter_cons_of_pos (by simpa using owned), areasOf,
    before_filter, behind_filter]

theorem areasOf_insert_of_ne {object : RecordId} (foreign : store.owner id ≠ object)
    (split : areas = front ++ back) :
    store.areasOf (front ++ id :: back) object = store.areasOf areas object := by
  rw [areasOf, List.filter_append, List.filter_cons_of_neg (by simpa using foreign),
    ← List.filter_append, ← split, areasOf]

/-- An area leaves the list of its object. -/
theorem listed_remove (notFront : id ∉ front)
    (desc : other.record = Function.update store.record (store.owner id)
      { store.record (store.owner id) with
        vmList := (store.record (store.owner id)).vmList.erase id })
    (owner : other.owner = store.owner) {object : RecordId}
    (listed : (store.record object).vmList = store.areasOf (front ++ id :: back) object) :
    (other.record object).vmList = other.areasOf (front ++ back) object := by
  have same : other.areasOf (front ++ back) object = store.areasOf (front ++ back) object := by
    rw [areasOf, owner, areasOf]
  rw [desc, same]
  by_cases eq : object = store.owner id
  · subst eq
    rw [Function.update_self, listed, areasOf, List.filter_append,
      List.filter_cons_of_pos (by simp), List.erase_append_right, List.erase_cons_head,
      ← List.filter_append, areasOf]
    exact fun member => notFront (List.mem_of_mem_filter member)
  · rw [Function.update_of_ne eq, listed]
    exact areasOf_insert_of_ne (fun own => eq own.symm) rfl

theorem records_remove (desc : other.record = Function.update store.record record
      { store.record record with vmList := (store.record record).vmList.erase id })
    (object : RecordId) :
    { other.record object with vmList := [] } = { store.record object with vmList := [] } := by
  rw [desc]
  by_cases eq : object = record
  · subst eq
    rw [Function.update_self]
  · rw [Function.update_of_ne eq]

theorem areasOf_sublist (object : RecordId) : (store.areasOf areas object).Sublist areas :=
  List.filter_sublist

theorem mem_areasOf {object : RecordId} :
    id ∈ store.areasOf areas object ↔ id ∈ areas ∧ store.owner id = object := by
  simp [areasOf]

/-! ## Growing an object -/

/-- The stores differ at most in links, tree, cache of the search, records, and one area of the
object. -/
structure Edited (store other : Store ν) (record : RecordId) (id : VmaId) (start stop : Nat)
    (map : MapArray) : Prop where
  lo : other.lo = Function.update store.lo id start
  hi : other.hi = Function.update store.hi id stop
  owner : other.owner = Function.update store.owner id record
  mapOf : other.mapOf = Function.update store.mapOf id map
  free : other.sb.freeAreaCache = store.sb.freeAreaCache

namespace Edited

variable {start stop : Nat} {map : MapArray}

theorem aligned (edited : Edited store other record id start stop map)
    (sub : areas' ⊆ id :: areas) (aligned : Aligned store areas) (low : start % pageSize = 0)
    (high : stop % pageSize = 0) : Aligned other areas' where
  area other member := by
    rw [edited.lo, edited.hi]
    by_cases same : other = id
    · subst same
      rw [Function.update_self, Function.update_self]
      exact ⟨low, high⟩
    · rw [Function.update_of_ne same, Function.update_of_ne same]
      exact aligned.area other ((List.mem_cons.mp (sub member)).resolve_left same)
  cache := edited.free ▸ aligned.cache

theorem untouched (edited : Edited store other record id start stop map)
    (sub : areas' ⊆ id :: areas) (untouched : Untouched store areas)
    (vacant : map.Vacant start stop) : Untouched other areas' := by
  intro other member
  rw [edited.lo, edited.hi, edited.mapOf]
  by_cases same : other = id
  · subst same
    rw [Function.update_self, Function.update_self, Function.update_self]
    exact vacant
  · rw [Function.update_of_ne same, Function.update_of_ne same, Function.update_of_ne same]
    exact untouched other ((List.mem_cons.mp (sub member)).resolve_left same)

/-- The addresses of the objects when one area of the object has been given new bounds. -/
theorem covers_iff (edited : Edited store other record id start stop map) {object : RecordId}
    {addr : Nat} : Covers other areas' object addr ↔
      (∃ area ∈ areas', area ≠ id ∧ store.owner area = object ∧ store.lo area ≤ addr ∧
        addr < store.hi area) ∨ (id ∈ areas' ∧ object = record ∧ start ≤ addr ∧ addr < stop) := by
  simp only [Covers, edited.lo, edited.hi, edited.owner]
  constructor
  · rintro ⟨area, member, owned, low, high⟩
    by_cases same : area = id
    · subst same
      simp only [Function.update_self] at owned low high
      exact Or.inr ⟨member, owned.symm, low, high⟩
    · simp only [Function.update_of_ne same] at owned low high
      exact Or.inl ⟨area, member, same, owned, low, high⟩
  · rintro (⟨area, member, same, here⟩ | ⟨member, rfl, low, high⟩)
    · refine ⟨area, member, ?_⟩
      simp only [Function.update_of_ne same]
      exact here
    · refine ⟨id, member, ?_⟩
      simp only [Function.update_self]
      exact ⟨trivial, low, high⟩

/-- The addresses of the objects with one more area. -/
theorem covers_insert (edited : Edited store other record id start stop map) (new : id ∉ areas)
    (split : areas = front ++ back) (object : RecordId) (addr : Nat) :
    Covers other (front ++ id :: back) object addr ↔
      Covers store areas object addr ∨ object = record ∧ start ≤ addr ∧ addr < stop := by
  have member_iff : ∀ other, other ∈ front ++ id :: back ↔ other = id ∨ other ∈ areas := by
    intro other
    rw [split]
    simp only [List.mem_append, List.mem_cons]
    tauto
  rw [edited.covers_iff]
  refine or_congr ⟨?_, ?_⟩ ?_
  · rintro ⟨other, member, different, here⟩
    exact ⟨other, ((member_iff other).mp member).resolve_left different, here⟩
  · rintro ⟨other, member, here⟩
    exact ⟨other, (member_iff other).mpr (Or.inr member), ne_of_mem_of_not_mem member new, here⟩
  · simp [member_iff]

end Edited

namespace Layout

/-- An area that is not linked may be written. -/
theorem write_outside (layout : Layout kernel store areas) (new : id ∉ areas) {area : VmArea}
    (vma : other.vma = Function.update store.vma id area) (sb : other.sb = store.sb)
    (nextVma : store.nextVma ≤ other.nextVma) : Layout kernel other areas := by
  have same : ∀ old ∈ areas, other.vma old = store.vma old := by
    intro old member
    rw [vma, Function.update_of_ne (ne_of_mem_of_not_mem member new)]
  have lo : ∀ old ∈ areas, other.lo old = store.lo old := fun old member =>
    congrArg VmArea.vmStart (same old member)
  have hi : ∀ old ∈ areas, other.hi old = store.hi old := fun old member =>
    congrArg VmArea.vmEnd (same old member)
  exact {
    chain := sb ▸ layout.chain.congr fun old member => congrArg VmArea.vmNext (same old member)
    inorder := sb ▸ layout.inorder
    spaced := layout.spaced.congr fun old member => ⟨lo old member, hi old member⟩
    within := fun old member => by
      rw [lo old member, hi old member]
      exact layout.within old member
    fresh := fun old member => lt_of_lt_of_le (layout.fresh old member) nextVma
    cached := sb ▸ layout.cached }

theorem setRecord (layout : Layout kernel store areas) (record : RecordId)
    (change : NsRecord → NsRecord) : Layout kernel (store.setRecord record change) areas :=
  ⟨layout.chain, layout.inorder, layout.spaced, layout.within, layout.fresh, layout.cached⟩

end Layout

/-- A field of the areas of two stores that differ at most in links, one area apart. -/
theorem field_of_vma {β : Type} {area : VmArea} (field : VmArea → β)
    (unlinked : ∀ area, field { area with vmNext := none } = field area)
    (outside : ∀ old, old ≠ id →
      { other.vma old with vmNext := none } = { store.vma old with vmNext := none })
    (inside : { other.vma id with vmNext := none } = { area with vmNext := none }) :
    (fun old => field (other.vma old)) =
      Function.update (fun old => field (store.vma old)) id (field area) := by
  funext old
  by_cases eq : old = id
  · subst eq
    rw [Function.update_self, ← unlinked, inside, unlinked]
  · rw [Function.update_of_ne eq, ← unlinked, outside old eq, unlinked]

/-- Stores whose areas differ at most in links, one area apart. -/
theorem edited_of_vma {area : VmArea}
    (outside : ∀ old, old ≠ id →
      { other.vma old with vmNext := none } = { store.vma old with vmNext := none })
    (inside : { other.vma id with vmNext := none } = { area with vmNext := none })
    (free : other.sb.freeAreaCache = store.sb.freeAreaCache) :
    Edited store other area.nsRecord id area.vmStart area.vmEnd area.mapArray where
  lo := field_of_vma VmArea.vmStart (fun _ => rfl) outside inside
  hi := field_of_vma VmArea.vmEnd (fun _ => rfl) outside inside
  owner := field_of_vma VmArea.nsRecord (fun _ => rfl) outside inside
  mapOf := field_of_vma VmArea.mapArray (fun _ => rfl) outside inside
  free := free

theorem Relinked.edited {fresh : Store ν} {area : VmArea} (same : Relinked fresh other)
    (vma : fresh.vma = Function.update store.vma id area)
    (free : other.sb.freeAreaCache = store.sb.freeAreaCache) :
    Edited store other area.nsRecord id area.vmStart area.vmEnd area.mapArray := by
  refine edited_of_vma (fun old ne => ?_) ?_ free
  · rw [same.vma, vma, Function.update_of_ne ne]
  · rw [same.vma, vma, Function.update_self]

/-- A new area of an object that has an area already, in a hole. -/
theorem newArea_spec (layout : Layout kernel store areas)
    (listed : (store.record record).vmList = store.areasOf areas record)
    (nonempty : (store.record record).vmList ≠ []) {area : VmArea} (owned : area.nsRecord = record)
    (proper : area.vmStart < area.vmEnd) (low : kernel.areaStart ≤ area.vmStart)
    (high : area.vmEnd ≤ kernel.areaEnd)
    (free : ∀ other ∈ areas, store.hi other ≤ area.vmStart ∨ area.vmEnd ≤ store.lo other) :
    ∃ final areas', final = ((store.newVma area).posInsertVmArea kernel
        store.nextVma).posVmaLinkList2 record store.nextVma ∧
      Changed kernel store areas record final areas' (fun object addr =>
        Covers store areas object addr ∨
          object = record ∧ area.vmStart ≤ addr ∧ addr < area.vmEnd) ∧
      Edited store final record store.nextVma area.vmStart area.vmEnd area.mapArray ∧
      ∀ other, other ∈ areas' ↔ other = store.nextVma ∨ other ∈ areas := by
  generalize idEq : store.nextVma = id
  have new : id ∉ areas := fun member => Nat.lt_irrefl id (idEq ▸ layout.fresh id member)
  have vma : (store.newVma area).vma = Function.update store.vma id area := by
    rw [← idEq]
    rfl
  have layout₁ : Layout kernel (store.newVma area) areas :=
    layout.write_outside new vma rfl (Nat.le_succ _)
  have loId : (store.newVma area).lo id = area.vmStart := by
    rw [lo, vma, Function.update_self]
  have hiId : (store.newVma area).hi id = area.vmEnd := by
    rw [hi, vma, Function.update_self]
  have old : ∀ other ∈ areas, (store.newVma area).vma other = store.vma other := by
    intro other member
    rw [vma, Function.update_of_ne (ne_of_mem_of_not_mem member new)]
  have free₁ : ∀ other ∈ areas, (store.newVma area).hi other ≤ (store.newVma area).lo id ∨
      (store.newVma area).hi id ≤ (store.newVma area).lo other := by
    intro other member
    rw [loId, hiId, hi, lo, old other member]
    exact free other member
  obtain ⟨layout₂, same, freeCache⟩ := layout₁.posInsertVmArea_spec new
    (idEq ▸ Nat.lt_succ_self store.nextVma) (by rw [loId, hiId]; exact proper)
    (by rw [loId]; exact low) (by rw [hiId]; exact high) free₁
  have split := layout₁.spaced.split ((store.newVma area).lo id)
  generalize (store.newVma area).posInsertVmArea kernel id = linked at *
  generalize frontEq : before (store.newVma area).hi ((store.newVma area).lo id) areas = front at *
  generalize backEq : behind (store.newVma area).hi ((store.newVma area).lo id) areas = back at *
  have edited : Edited store linked record id area.vmStart area.vmEnd area.mapArray :=
    owned ▸ same.edited vma freeCache
  have ownId : linked.owner id = record := by
    rw [edited.owner, Function.update_self]
  have ownOld : ∀ other ∈ areas, linked.owner other = store.owner other := by
    intro other member
    rw [edited.owner, Function.update_of_ne (ne_of_mem_of_not_mem member new)]
  have listed₂ : (linked.record record).vmList = linked.areasOf areas record := by
    rw [same.record, areasOf_congr ownOld]
    exact listed
  have inside : ∀ other ∈ (linked.record record).vmList, other ∈ areas := by
    intro other member
    rw [listed₂] at member
    exact (mem_areasOf.mp member).1
  have links := @posVmaLinkList2_eq _ linked id record
    (by rw [same.lo, same.hi, loId, hiId]; exact proper)
    (by
      rw [listed₂, same.lo, same.hi]
      exact layout₁.spaced.sublist (areasOf_sublist record))
    (by rw [same.record]; exact nonempty)
    (by
      intro other member
      rw [same.lo, same.hi]
      exact free₁ other (inside other member))
  rw [same.lo, same.hi, listed₂] at links
  have edited' : Edited store (linked.posVmaLinkList2 record id) record id area.vmStart area.vmEnd
      area.mapArray := by
    rw [links]
    exact ⟨edited.lo, edited.hi, edited.owner, edited.mapOf, edited.free⟩
  have member_iff : ∀ other, other ∈ front ++ id :: back ↔ other = id ∨ other ∈ areas := by
    intro other
    rw [split]
    simp only [List.mem_append, List.mem_cons]
    tauto
  refine ⟨_, front ++ id :: back, rfl, ?_, edited', member_iff⟩
  refine ⟨?_, fun object addr => ?_, fun other member => ?_, fun object listed' => ?_,
    fun object => ?_, ?_, ?_, ?_⟩
  · rw [links]
    exact layout₂.setRecord ..
  · exact edited'.covers_insert new split object addr
  · rw [edited'.owner]
    rcases (member_iff other).mp member with rfl | inside'
    · exact Or.inl (Function.update_self ..)
    · rw [Function.update_of_ne (ne_of_mem_of_not_mem inside' new)]
      exact Or.inr ⟨other, inside', rfl⟩
  · rw [links]
    by_cases eq : object = record
    · subst eq
      rw [record_setRecord_self, ← frontEq, ← backEq]
      exact (areasOf_insert ownId ..).symm
    · rw [record_setRecord_of_ne eq, same.record]
      refine listed'.trans ((areasOf_congr ownOld object).symm.trans ?_)
      exact (areasOf_insert_of_ne (fun own => eq (own.symm.trans ownId)) split).symm
  · rw [links]
    by_cases eq : object = record
    · subst eq
      rw [record_setRecord_self, same.record]
      rfl
    · rw [record_setRecord_of_ne eq, same.record]
      rfl
  · rw [links]
    exact same.names
  · rw [links]
    exact same.nsCount
  · rw [links]
    exact same.nextRecord

theorem Changed.of_iff {covers covers' : RecordId → Nat → Prop}
    (changed : Changed kernel store areas record other areas' covers)
    (same : ∀ object addr, covers object addr ↔ covers' object addr) :
    Changed kernel store areas record other areas' covers' :=
  { changed with covers := fun object addr => (changed.covers object addr).trans (same object addr) }

theorem setVma_setVma (id : VmaId) (first second : VmArea → VmArea) :
    (store.setVma id first).setVma id second = store.setVma id fun area => second (first area) := by
  rw [setVma, setVma, setVma]
  dsimp only
  rw [Function.update_idem, Function.update_self]

theorem setVma_edited (id : VmaId) (change : VmArea → VmArea) :
    Edited store (store.setVma id change) (change (store.vma id)).nsRecord id
      (change (store.vma id)).vmStart (change (store.vma id)).vmEnd
      (change (store.vma id)).mapArray :=
  (Relinked.refl (store.setVma id change)).edited rfl rfl

/-- The layout after an area has got other bounds between its neighbours, with the links as given. -/
theorem Edited.layout {start stop : Nat} {map : MapArray} (layout : Layout kernel store areas)
    (sub : (front ++ id :: back).Sublist areas) (edited : Edited store other record id start stop map)
    (chain : Chain other.next other.sb.vmNext (front ++ id :: back))
    (inorder : other.sb.rb.inorder = front ++ id :: back)
    (cached : ∀ hit, other.sb.findCache = some hit → hit ∈ front ++ id :: back)
    (nextVma : other.nextVma = store.nextVma) (proper : start < stop) (low : kernel.areaStart ≤ start)
    (high : stop ≤ kernel.areaEnd) (room : ∀ earlier ∈ front, store.hi earlier ≤ start)
    (room' : ∀ later ∈ back, stop ≤ store.lo later) : Layout kernel other (front ++ id :: back) where
  chain := chain
  inorder := inorder
  spaced := by
    rw [edited.lo, edited.hi]
    exact (layout.spaced.sublist sub).resize proper room room'
  within old member := by
    rw [edited.lo, edited.hi]
    by_cases same : old = id
    · subst same
      rw [Function.update_self, Function.update_self]
      exact ⟨low, high⟩
    · rw [Function.update_of_ne same, Function.update_of_ne same]
      exact layout.within old (sub.subset member)
  fresh old member := by
    rw [nextVma]
    exact layout.fresh old (sub.subset member)
  cached := cached

/-- An area gets other bounds between its neighbours. -/
theorem setVma_changed (layout : Layout kernel store (front ++ id :: back))
    {change : VmArea → VmArea} (owned : (change (store.vma id)).nsRecord = store.owner id)
    (link : (change (store.vma id)).vmNext = store.next id)
    (proper : (change (store.vma id)).vmStart < (change (store.vma id)).vmEnd)
    (low : kernel.areaStart ≤ (change (store.vma id)).vmStart)
    (high : (change (store.vma id)).vmEnd ≤ kernel.areaEnd)
    (room : ∀ earlier ∈ front, store.hi earlier ≤ (change (store.vma id)).vmStart)
    (room' : ∀ later ∈ back, (change (store.vma id)).vmEnd ≤ store.lo later) :
    Changed kernel store (front ++ id :: back) (store.owner id) (store.setVma id change)
      (front ++ id :: back) fun object addr =>
        (∃ area ∈ front ++ id :: back, area ≠ id ∧ store.owner area = object ∧
          store.lo area ≤ addr ∧ addr < store.hi area) ∨
        object = store.owner id ∧ (change (store.vma id)).vmStart ≤ addr ∧
          addr < (change (store.vma id)).vmEnd := by
  have edited := @setVma_edited _ store id change
  have owner : (store.setVma id change).owner = store.owner := by
    rw [owner_setVma, owned, Function.update_eq_self]
  have next : (store.setVma id change).next = store.next := by
    rw [next_setVma, link, Function.update_eq_self]
  refine ⟨edited.layout layout (List.Sublist.refl _) (next.symm ▸ layout.chain) layout.inorder
    layout.cached rfl proper low high room room', fun object addr => ?_, fun old member => ?_,
    fun object listed => ?_, fun _ => rfl, rfl, rfl, rfl⟩
  · rw [edited.covers_iff, owned]
    simp
  · rw [owner]
    exact Or.inr ⟨old, member, rfl⟩
  · rw [areasOf, owner]
    exact listed

/-- The map array that an allocation keeps has levels enough for the merged area. -/
def RoomInMap (store : Store ν) (record : RecordId) (prev next : Option VmaId)
    (vmStart vmEnd : Nat) : Prop :=
  let prevFits := prev.filter fun id =>
    store.hi id = vmStart ∧ (store.vma id).nsRecord = record
  let nextFits := next.filter fun id =>
    vmEnd = store.lo id ∧ (store.vma id).nsRecord = record
  match prevFits, nextFits with
  | some prev, some next =>
      posPagesToLevel (pagesBetween (store.lo prev) (store.hi next)) ≤ (store.mapOf prev).level
  | some prev, none => posPagesToLevel (pagesBetween (store.lo prev) vmEnd) ≤ (store.mapOf prev).level
  | none, some next => posPagesToLevel (pagesBetween vmStart (store.hi next)) ≤
      posPagesToLevel (store.vma next).nrPages
  | none, none => True

/-- Enough levels for the pages of an area inside the store's range. -/
theorem Layout.pages_le (kernel : Kernel) {start stop level : Nat} (le : start ≤ stop)
    (low : kernel.areaStart ≤ start) (high : stop ≤ kernel.areaEnd)
    (enough : posPagesToLevel (pagesBetween start stop) ≤ level) :
    (stop - start) / pageSize ≤ posMapNr ^ level := by
  have bound : stop < 2 ^ 64 := by
    have small := kernel.end_le
    rw [Kernel.areaEnd] at high
    omega
  rw [pagesBetween_eq le bound] at enough
  have small : stop - start ≤ posAreaSize := by
    rw [Kernel.areaEnd] at high
    omega
  have few : (stop - start) / pageSize ≤ posMapNr ^ 10 := by
    refine (Nat.div_le_self ..).trans (small.trans ?_)
    decide
  exact (le_posPagesToLevel few).trans (Nat.pow_le_pow_right (by decide) enough)

/-- The addresses of the objects when an area of one of them grows over a hole at one of its ends. -/
theorem covers_grown {start stop vmStart vmEnd : Nat} (member : id ∈ areas)
    (owned : store.owner id = record)
    (grown : ∀ addr, start ≤ addr ∧ addr < stop ↔
      (store.lo id ≤ addr ∧ addr < store.hi id) ∨ (vmStart ≤ addr ∧ addr < vmEnd))
    (object : RecordId) (addr : Nat) :
    (∃ area ∈ areas, area ≠ id ∧ store.owner area = object ∧ store.lo area ≤ addr ∧
        addr < store.hi area) ∨ object = record ∧ start ≤ addr ∧ addr < stop ↔
      Covers store areas object addr ∨ object = record ∧ vmStart ≤ addr ∧ addr < vmEnd := by
  rw [grown]
  constructor
  · rintro (⟨area, inside, _, here⟩ | ⟨rfl, here | there⟩)
    · exact Or.inl ⟨area, inside, here⟩
    · exact Or.inl ⟨id, member, owned, here⟩
    · exact Or.inr ⟨rfl, there⟩
  · rintro (⟨area, inside, owns, here⟩ | ⟨rfl, there⟩)
    · by_cases same : area = id
      · subst same
        exact Or.inr ⟨owns.symm.trans owned, Or.inl here⟩
      · exact Or.inl ⟨area, inside, same, owns, here⟩
    · exact Or.inr ⟨rfl, Or.inr there⟩

/-- An area grows upwards over a hole. -/
theorem growUp_spec (layout : Layout kernel store areas) (member : id ∈ areas) {vmEnd : Nat}
    (more : store.hi id < vmEnd) (high : vmEnd ≤ kernel.areaEnd)
    (free : ∀ other ∈ areas, store.hi other ≤ store.hi id ∨ vmEnd ≤ store.lo other)
    (nrPages : Nat) (map : MapArray) :
    let final := store.setVma id fun area =>
      { area with vmEnd := vmEnd, nrPages := nrPages, mapArray := map }
    Changed kernel store areas (store.owner id) final areas (fun object addr =>
        Covers store areas object addr ∨
          object = store.owner id ∧ store.hi id ≤ addr ∧ addr < vmEnd) ∧
      Edited store final (store.owner id) id (store.lo id) vmEnd map := by
  intro final
  refine ⟨?_, setVma_edited id _⟩
  obtain ⟨front, back, rfl⟩ := List.append_of_mem member
  obtain ⟨_, tail, apart⟩ := Spaced.append_iff.mp layout.spaced
  obtain ⟨proper, _, later⟩ := Spaced.cons_iff.mp tail
  have changed := @setVma_changed _ kernel store front back id layout
    (fun area => { area with vmEnd := vmEnd, nrPages := nrPages, mapArray := map }) rfl rfl
    (proper.trans more) (layout.within id member).1 high
    (fun earlier inFront => apart earlier inFront id (List.mem_cons_self ..)) (by
      intro other inBack
      have inside : other ∈ front ++ id :: back := by simp [inBack]
      have order := later other inBack
      have proper' := layout.spaced.2 other inside
      have hole := free other inside
      change vmEnd ≤ store.lo other
      omega)
  refine changed.of_iff (covers_grown member rfl fun addr => ?_)
  change store.lo id ≤ addr ∧ addr < vmEnd ↔ _
  omega

/-- An area grows downwards over a hole. -/
theorem growDown_spec (layout : Layout kernel store areas) (member : id ∈ areas) {vmStart : Nat}
    (more : vmStart < store.lo id) (low : kernel.areaStart ≤ vmStart)
    (free : ∀ other ∈ areas, store.hi other ≤ vmStart ∨ store.lo id ≤ store.lo other)
    (nrPages : Nat) (map : MapArray) :
    let final := store.setVma id fun area =>
      { area with vmStart := vmStart, nrPages := nrPages, mapArray := map }
    Changed kernel store areas (store.owner id) final areas (fun object addr =>
        Covers store areas object addr ∨
          object = store.owner id ∧ vmStart ≤ addr ∧ addr < store.lo id) ∧
      Edited store final (store.owner id) id vmStart (store.hi id) map := by
  intro final
  refine ⟨?_, setVma_edited id _⟩
  obtain ⟨front, back, rfl⟩ := List.append_of_mem member
  obtain ⟨_, tail, apart⟩ := Spaced.append_iff.mp layout.spaced
  obtain ⟨proper, _, later⟩ := Spaced.cons_iff.mp tail
  have changed := @setVma_changed _ kernel store front back id layout
    (fun area => { area with vmStart := vmStart, nrPages := nrPages, mapArray := map }) rfl rfl
    (more.trans proper) low (layout.within id member).2 (by
      intro other inFront
      have inside : other ∈ front ++ id :: back := by simp [inFront]
      have order := apart other inFront id (List.mem_cons_self ..)
      have proper' := layout.spaced.2 other inside
      have hole := free other inside
      change store.hi other ≤ vmStart
      omega) later
  refine changed.of_iff (covers_grown member rfl fun addr => ?_)
  change vmStart ≤ addr ∧ addr < store.hi id ↔ _
  omega

/-- Two areas of an object and the hole between them become one area. -/
theorem join_spec {prev next : VmaId} (layout : Layout kernel store (front ++ prev :: next :: back))
    (owned : store.owner next = store.owner prev)
    (cached : ∀ hit, store.sb.findCache = some hit → hit ≠ next) (nrPages : Nat) (map : MapArray) :
    let grown := store.setVma prev fun area =>
      { area with vmEnd := store.hi next, nrPages := nrPages }
    let erased := { grown with sb := { grown.sb with rb := kernel.rbErase next grown.sb.rb } }
    let passed := erased.setVma prev fun area => { area with vmNext := erased.next next }
    let unlinked := (passed.setVma next fun area => { area with vmNext := none }).listDel next
    let counted :=
      { unlinked with sb := { unlinked.sb with vmCount := unlinked.sb.vmCount - 1 } }
    let final := counted.setVma prev fun area => { area with mapArray := map }
    Changed kernel store (front ++ prev :: next :: back) (store.owner prev) final
        (front ++ prev :: back) (fun object addr =>
          Covers store (front ++ prev :: next :: back) object addr ∨
            object = store.owner prev ∧ store.hi prev ≤ addr ∧ addr < store.lo next) ∧
      Edited store final (store.owner prev) prev (store.lo prev) (store.hi next) map ∧
      counted.lo prev = store.lo prev ∧ counted.mapOf prev = store.mapOf prev ∧
      counted.mapOf next = store.mapOf next := by
  intro grown erased passed unlinked counted final
  have nodup := layout.nodup
  have ne : prev ≠ next := by
    rintro rfl
    simp [List.nodup_append] at nodup
  have edited : Edited store final (store.owner prev) prev (store.lo prev) (store.hi next) map := by
    refine @edited_of_vma _ store final prev { store.vma prev with
      vmEnd := store.hi next, nrPages := nrPages, mapArray := map } (fun old other => ?_) ?_ rfl
    · by_cases isNext : old = next
      · subst isNext
        simp [final, counted, unlinked, passed, erased, grown, listDel, setRecord, setVma, other]
      · simp [final, counted, unlinked, passed, erased, grown, listDel, setRecord, setVma, other, isNext]
    · simp [final, counted, unlinked, passed, erased, grown, listDel, setRecord, setVma, ne]
  have links : final.next =
      Function.update (Function.update store.next prev (store.next next)) next none := by
    funext old
    by_cases isNext : old = next
    · subst isNext
      simp [final, counted, unlinked, passed, erased, grown, listDel, setRecord, setVma, Store.next, Ne.symm ne]
    · by_cases isPrev : old = prev
      · subst isPrev
        simp [final, counted, unlinked, passed, erased, grown, listDel, setRecord, setVma, Store.next, ne,
          Ne.symm ne]
      · simp [final, counted, unlinked, passed, erased, grown, listDel, setRecord, setVma, Store.next, isNext,
          isPrev]
  have desc : final.record = Function.update store.record (store.owner prev)
      { store.record (store.owner prev) with
        vmList := (store.record (store.owner prev)).vmList.erase next } := by
    have own : (passed.setVma next fun area => { area with vmNext := none }).owner next =
        store.owner prev := by
      rw [← owned]
      simp [passed, erased, grown, setVma, owner, Ne.symm ne]
    exact congrArg (fun object => Function.update store.record object
      { store.record object with vmList := (store.record object).vmList.erase next }) own
  have sub : (front ++ prev :: back).Sublist (front ++ prev :: next :: back) :=
    List.Sublist.append_left ((List.sublist_cons_self next back).cons_cons prev) front
  obtain ⟨_, tail, apart⟩ := Spaced.append_iff.mp layout.spaced
  obtain ⟨prevProper, tail', prevLater⟩ := Spaced.cons_iff.mp tail
  obtain ⟨nextProper, _, nextLater⟩ := Spaced.cons_iff.mp tail'
  have order := prevLater next (List.mem_cons_self ..)
  have notFront : next ∉ front := fun member =>
    (List.nodup_append.mp nodup).2.2 next member next (by simp) rfl
  have notFront' : next ∉ front ++ [prev] := by
    simpa [notFront] using Ne.symm ne
  have erase : ∀ left right : List VmaId, next ∉ left →
      (left ++ prev :: next :: right).erase next = left ++ prev :: right := by
    intro left right notLeft
    rw [List.erase_append_right _ notLeft, List.erase_cons_tail (by simpa using ne),
      List.erase_cons_head]
  have owner : final.owner = store.owner := by
    rw [edited.owner, Function.update_eq_self]
  have kept : counted.lo prev = store.lo prev ∧ counted.mapOf prev = store.mapOf prev ∧
      counted.mapOf next = store.mapOf next := by
    refine ⟨?_, ?_, ?_⟩
    · simp [counted, unlinked, passed, erased, grown, listDel, setRecord, setVma, lo, ne]
    · simp [counted, unlinked, passed, erased, grown, listDel, setRecord, setVma, mapOf, ne]
    · simp [counted, unlinked, passed, erased, grown, listDel, setRecord, setVma, mapOf, Ne.symm ne]
  refine ⟨⟨?_, fun object addr => ?_, fun old member => ?_, fun object listed => ?_,
    fun object => ?_, rfl, rfl, rfl⟩, edited, kept⟩
  · refine edited.layout layout sub ?_ ?_ (fun hit eq => ?_) rfl
      (prevProper.trans_le (order.trans nextProper.le)) (layout.within prev (by simp)).1
      (layout.within next (by simp)).2
      (fun earlier inFront => apart earlier inFront prev (List.mem_cons_self ..)) nextLater
    · rw [links]
      exact layout.chain.removeAfter nodup
    · change (kernel.rbErase next store.sb.rb).inorder = _
      rw [kernel.inorder_rbErase, layout.inorder, erase front back notFront]
    · have member := layout.cached hit eq
      have notNext := cached hit eq
      simp only [List.mem_append, List.mem_cons] at member ⊢
      tauto
  · rw [edited.covers_iff]
    constructor
    · rintro (⟨area, member, _, here⟩ | ⟨_, rfl, low, high⟩)
      · exact Or.inl ⟨area, sub.subset member, here⟩
      · rcases Nat.lt_or_ge addr (store.hi prev) with inPrev | past
        · exact Or.inl ⟨prev, by simp, rfl, low, inPrev⟩
        · rcases Nat.lt_or_ge addr (store.lo next) with inHole | inNext
          · exact Or.inr ⟨rfl, past, inHole⟩
          · exact Or.inl ⟨next, by simp, owned, inNext, high⟩
    · rintro (⟨area, member, owns, low, high⟩ | ⟨rfl, low, high⟩)
      · by_cases isPrev : area = prev
        · subst isPrev
          exact Or.inr ⟨by simp, owns.symm, low, by omega⟩
        · by_cases isNext : area = next
          · subst isNext
            exact Or.inr ⟨by simp, owns.symm.trans owned, by omega, high⟩
          · refine Or.inl ⟨area, ?_, isPrev, owns, low, high⟩
            simp only [List.mem_append, List.mem_cons] at member ⊢
            tauto
      · exact Or.inr ⟨by simp, rfl, by omega, by omega⟩
  · rw [owner]
    exact Or.inr ⟨old, sub.subset member, rfl⟩
  · rw [← List.singleton_append, ← List.append_assoc] at listed
    have desc' := desc
    rw [← owned] at desc'
    have step := listed_remove notFront' desc' owner listed
    rwa [List.append_assoc, List.singleton_append] at step
  · exact records_remove desc object

/-- A merge that `pos_create_or_merge_vma` makes: the area that stays and the one that goes, the new
bounds, the array that it keeps and the one whose frames it takes over. -/
structure Merge where
  id : VmaId
  gone : Option VmaId
  start : Nat
  stop : Nat
  dst : MapArray
  src : Option MapArray

/-- What `pos_merge_map_array` does for the merge. -/
def Merge.result (junk : Junk) (merge : Merge) : Option (Bool × MapArray) :=
  posMergeMapArray junk (pagesBetween merge.start merge.stop) (merge.start / pageSize) merge.dst
    merge.src

/-- The array that the merge keeps has levels enough. -/
def Merge.Fits (merge : Merge) : Prop :=
  posPagesToLevel (pagesBetween merge.start merge.stop) ≤ merge.dst.level

/-- The merge that `pos_create_or_merge_vma` makes, if any. -/
def merging (store : Store ν) (record : RecordId) (prev next : Option VmaId) (vmStart vmEnd : Nat) :
    Option Merge :=
  let prevFits := prev.filter fun id =>
    store.hi id = vmStart ∧ (store.vma id).nsRecord = record
  let nextFits := next.filter fun id =>
    vmEnd = store.lo id ∧ (store.vma id).nsRecord = record
  match prevFits, nextFits with
  | some prev, some next => some
      ⟨prev, some next, store.lo prev, store.hi next, store.mapOf prev, some (store.mapOf next)⟩
  | some prev, none => some ⟨prev, none, store.lo prev, vmEnd, store.mapOf prev, none⟩
  | none, some next => some ⟨next, none, vmStart, store.hi next,
      MapArray.new (posPagesToLevel (store.vma next).nrPages) (vmStart / pageSize),
      some (store.mapOf next)⟩
  | none, none => none

variable {prev next : Option VmaId} {vmStart vmEnd : Nat} {merge : Merge}

theorem merging_cases (merges : store.merging record prev next vmStart vmEnd = some merge) :
    (∃ id, prev = some id ∧ store.hi id = vmStart ∧ store.owner id = record ∧
      merge = ⟨id, none, store.lo id, vmEnd, store.mapOf id, none⟩) ∨
    (∃ id, next = some id ∧ vmEnd = store.lo id ∧ store.owner id = record ∧
      merge = ⟨id, none, vmStart, store.hi id,
        MapArray.new (posPagesToLevel (store.vma id).nrPages) (vmStart / pageSize),
        some (store.mapOf id)⟩) ∨
    ∃ id later, prev = some id ∧ next = some later ∧ store.hi id = vmStart ∧
      vmEnd = store.lo later ∧ store.owner id = record ∧ store.owner later = record ∧
      merge = ⟨id, some later, store.lo id, store.hi later, store.mapOf id,
        some (store.mapOf later)⟩ := by
  rw [merging] at merges
  cases prevFits : prev.filter fun id => store.hi id = vmStart ∧ (store.vma id).nsRecord = record with
  | none =>
      cases nextFits : next.filter fun id =>
          vmEnd = store.lo id ∧ (store.vma id).nsRecord = record with
      | none =>
          rw [prevFits, nextFits] at merges
          cases merges
      | some id =>
          rw [prevFits, nextFits] at merges
          obtain ⟨named, fits⟩ := Option.filter_eq_some_iff.mp nextFits
          obtain ⟨here, owned⟩ := of_decide_eq_true fits
          exact Or.inr (Or.inl ⟨id, named, here, owned, (Option.some.inj merges).symm⟩)
  | some id =>
      obtain ⟨named, fits⟩ := Option.filter_eq_some_iff.mp prevFits
      obtain ⟨here, owned⟩ := of_decide_eq_true fits
      cases nextFits : next.filter fun id =>
          vmEnd = store.lo id ∧ (store.vma id).nsRecord = record with
      | none =>
          rw [prevFits, nextFits] at merges
          exact Or.inl ⟨id, named, here, owned, (Option.some.inj merges).symm⟩
      | some later =>
          rw [prevFits, nextFits] at merges
          obtain ⟨named', fits'⟩ := Option.filter_eq_some_iff.mp nextFits
          obtain ⟨here', owned'⟩ := of_decide_eq_true fits'
          exact Or.inr (Or.inr ⟨id, later, named, named', here, here', owned, owned',
            (Option.some.inj merges).symm⟩)

theorem fits_of_roomInMap (room : store.RoomInMap record prev next vmStart vmEnd)
    (merges : store.merging record prev next vmStart vmEnd = some merge) : merge.Fits := by
  rw [RoomInMap] at room
  rw [merging] at merges
  cases prevFits : prev.filter fun id => store.hi id = vmStart ∧ (store.vma id).nsRecord = record with
  | none =>
      cases nextFits : next.filter fun id =>
          vmEnd = store.lo id ∧ (store.vma id).nsRecord = record with
      | none =>
          rw [prevFits, nextFits] at merges
          cases merges
      | some id =>
          rw [prevFits, nextFits] at merges room
          cases merges
          exact room
  | some id =>
      cases nextFits : next.filter fun id =>
          vmEnd = store.lo id ∧ (store.vma id).nsRecord = record with
      | none =>
          rw [prevFits, nextFits] at merges room
          cases merges
          exact room
      | some later =>
          rw [prevFits, nextFits] at merges room
          cases merges
          exact room

/-- A hole for the object, with the area before it as the search names it. -/
structure HoleFor (kernel : Kernel) (store : Store ν) (areas : List VmaId) (record : RecordId)
    (prev : Option VmaId) (vmStart vmEnd : Nat) : Prop where
  layout : Layout kernel store areas
  listed : (store.record record).vmList = store.areasOf areas record
  nonempty : (store.record record).vmList ≠ []
  inside : ∀ id, prev = some id → id ∈ areas
  proper : vmStart < vmEnd
  low : kernel.areaStart ≤ vmStart
  high : vmEnd ≤ kernel.areaEnd
  free : ∀ other ∈ areas, store.hi other ≤ vmStart ∨ vmEnd ≤ store.lo other
  notLater : ∀ id, prev = some id → store.hi id = vmStart →
    ∃ hit, store.sb.findCache = some hit ∧ store.hi hit ≤ vmStart

theorem HoleFor.next_split (hole : HoleFor kernel store areas record prev vmStart vmEnd)
    {id later : VmaId} (named : prev = some id) (link : store.next id = some later) :
    ∃ front back, areas = front ++ id :: later :: back := by
  obtain ⟨front, back, rfl⟩ := List.append_of_mem (hole.inside id named)
  have rest := hole.layout.chain.next_eq
  rw [link] at rest
  cases back with
  | nil => cases rest
  | cons other back =>
      obtain rfl := Option.some.inj rest.1
      exact ⟨front, back, rfl⟩

/-- The addresses of the objects when the object also has the hole. -/
def Gains (store : Store ν) (areas : List VmaId) (record : RecordId) (vmStart vmEnd : Nat)
    (object : RecordId) (addr : Nat) : Prop :=
  Covers store areas object addr ∨ object = record ∧ vmStart ≤ addr ∧ addr < vmEnd

/-- Without a merge the hole becomes a new area. -/
theorem posCreateOrMergeVma_apart (hole : HoleFor kernel store areas record prev vmStart vmEnd)
    (apart : store.merging record prev (prev.bind store.next) vmStart vmEnd = none) :
    ∃ other areas', store.posCreateOrMergeVma kernel junk record prev (prev.bind store.next) vmStart
        vmEnd = some other ∧
      Changed kernel store areas record other areas' (store.Gains areas record vmStart vmEnd) ∧
      Edited store other record store.nextVma vmStart vmEnd
        (MapArray.new (posPagesToLevel (pagesBetween vmStart vmEnd)) (vmStart / pageSize)) ∧
      ∀ area, area ∈ areas' ↔ area = store.nextVma ∨ area ∈ areas := by
  rw [merging] at apart
  rw [posCreateOrMergeVma.eq_def]
  cases prevFits : prev.filter fun id => store.hi id = vmStart ∧ (store.vma id).nsRecord = record with
  | none =>
      cases nextFits : (prev.bind store.next).filter fun id =>
          vmEnd = store.lo id ∧ (store.vma id).nsRecord = record with
      | none =>
          rw [prevFits, nextFits] at apart
          obtain ⟨final, areas', rfl, changed, edited, members⟩ := @newArea_spec _ kernel store areas
            record hole.layout hole.listed hole.nonempty
            { vmStart := vmStart
              vmEnd := vmEnd
              nrPages := pagesBetween vmStart vmEnd
              mapArray := MapArray.new (posPagesToLevel (pagesBetween vmStart vmEnd))
                (vmStart / pageSize)
              nsRecord := record
              vmNext := none } rfl hole.proper hole.low hole.high hole.free
          exact ⟨_, areas', rfl, changed, edited, members⟩
      | some next =>
          rw [prevFits, nextFits] at apart
          cases apart
  | some id =>
      cases nextFits : (prev.bind store.next).filter fun id =>
          vmEnd = store.lo id ∧ (store.vma id).nsRecord = record with
      | none =>
          rw [prevFits, nextFits] at apart
          cases apart
      | some next =>
          rw [prevFits, nextFits] at apart
          cases apart

/-- With a merge an area of the object gets the hole and the array that the merge makes. -/
theorem posCreateOrMergeVma_merges (hole : HoleFor kernel store areas record prev vmStart vmEnd)
    (merges : store.merging record prev (prev.bind store.next) vmStart vmEnd = some merge) :
    ∃ (place : MapArray → Store ν) (areas' : List VmaId),
      store.posCreateOrMergeVma kernel junk record prev (prev.bind store.next) vmStart vmEnd =
        (merge.result junk).map (fun out => place out.2) ∧
      (∀ area, area ∈ areas' ↔ area ∈ areas ∧ merge.gone ≠ some area) ∧
      ∀ map, Changed kernel store areas record (place map) areas'
          (store.Gains areas record vmStart vmEnd) ∧
        Edited store (place map) record merge.id merge.start merge.stop map := by
  obtain ⟨layout, listed, nonempty, inside, proper, low, high, free, notLater⟩ := id hole
  rw [merging] at merges
  rw [posCreateOrMergeVma.eq_def]
  cases prevFits : prev.filter fun id => store.hi id = vmStart ∧ (store.vma id).nsRecord = record with
  | none =>
      cases nextFits : (prev.bind store.next).filter fun id =>
          vmEnd = store.lo id ∧ (store.vma id).nsRecord = record with
      | none =>
          rw [prevFits, nextFits] at merges
          cases merges
      | some next =>
          rw [prevFits, nextFits] at merges
          cases merges
          obtain ⟨link, fits⟩ := Option.filter_eq_some_iff.mp nextFits
          obtain ⟨id, named, link⟩ := Option.bind_eq_some_iff.mp link
          obtain ⟨rfl, rfl⟩ : vmEnd = store.lo next ∧ store.owner next = record :=
            of_decide_eq_true fits
          obtain ⟨front, back, split⟩ := hole.next_split named link
          have member : next ∈ areas := by
            rw [split]
            simp
          refine ⟨fun map => store.setVma next fun area => { area with
            vmStart := vmStart, nrPages := pagesBetween vmStart (store.hi next), mapArray := map },
            areas, ?_, fun area => by simp, fun map => growDown_spec layout member proper low free
              (pagesBetween vmStart (store.hi next)) map⟩
          rw [Merge.result]
          dsimp only
          rw [mapOf]
          cases posMergeMapArray junk (pagesBetween vmStart (store.hi next)) (vmStart / pageSize)
              (MapArray.new (posPagesToLevel (store.vma next).nrPages) (vmStart / pageSize))
              (some (store.vma next).mapArray) with
          | none => rfl
          | some out => exact congrArg some (setVma_setVma ..)
  | some id =>
      obtain ⟨rfl, fits⟩ := Option.filter_eq_some_iff.mp prevFits
      obtain ⟨rfl, rfl⟩ : store.hi id = vmStart ∧ store.owner id = record :=
        of_decide_eq_true fits
      have member := inside id rfl
      cases nextFits : ((some id).bind store.next).filter fun next =>
          vmEnd = store.lo next ∧ (store.vma next).nsRecord = store.owner id with
      | none =>
          rw [prevFits, nextFits] at merges
          cases merges
          refine ⟨fun map => store.setVma id fun area => { area with
            vmEnd := vmEnd, nrPages := pagesBetween (store.lo id) vmEnd, mapArray := map },
            areas, ?_, fun area => by simp, fun map => growUp_spec layout member proper high free
              (pagesBetween (store.lo id) vmEnd) map⟩
          rw [Merge.result]
          dsimp only
          simp only [lo, vma_setVma_self, mapOf]
          cases posMergeMapArray junk (pagesBetween (store.vma id).vmStart vmEnd)
              ((store.vma id).vmStart / pageSize) (store.vma id).mapArray none with
          | none => rfl
          | some out => exact congrArg some (setVma_setVma ..)
      | some next =>
          rw [prevFits, nextFits] at merges
          cases merges
          obtain ⟨link, fits'⟩ := Option.filter_eq_some_iff.mp nextFits
          obtain ⟨rfl, owned⟩ : vmEnd = store.lo next ∧ store.owner next = store.owner id :=
            of_decide_eq_true fits'
          obtain ⟨front, back, rfl⟩ := hole.next_split rfl link
          have nodup := layout.nodup
          have here' := layout.spaced.2 next (by simp)
          have cached : ∀ hit, store.sb.findCache = some hit → hit ≠ next := by
            rintro hit eq rfl
            obtain ⟨hit', eq', ends⟩ := notLater id rfl rfl
            obtain rfl := Option.some.inj (eq.symm.trans eq')
            omega
          rw [Merge.result]
          dsimp only
          generalize pagesBetween (store.lo id) (store.hi next) = nrPages
          have joined := fun map => join_spec layout owned cached nrPages map
          obtain ⟨start, mapPrev, mapNext⟩ := (joined (store.mapOf id)).2.2
          have kept := congr (congr (congrArg (fun start map src => posMergeMapArray junk nrPages
            (start / pageSize) map (some src)) start) mapPrev) mapNext
          refine ⟨_, front ++ id :: back, ?_, fun area => ?_, fun map =>
            ⟨(joined map).1, (joined map).2.1⟩⟩
          · split
            · next stuck =>
                have stuck' : posMergeMapArray junk nrPages (store.lo id / pageSize) (store.mapOf id)
                    (some (store.mapOf next)) = none := kept.symm.trans stuck
                rw [stuck']
                rfl
            · next done map merged =>
                have merged' : posMergeMapArray junk nrPages (store.lo id / pageSize) (store.mapOf id)
                    (some (store.mapOf next)) = some (done, map) := kept.symm.trans merged
                rw [merged']
                rfl
          · have apart : next ∉ front ++ id :: back := by
              have ends := List.nodup_append.mp nodup
              intro member
              rcases List.mem_append.mp member with early | late
              · exact ends.2.2 next early next (by simp) rfl
              · have tail := List.nodup_cons.mp ends.2.1
                rcases List.mem_cons.mp late with rfl | later
                · exact tail.1 (List.mem_cons_self ..)
                · exact (List.nodup_cons.mp tail.2).1 later
            simp only [ne_eq, Option.some.injEq, List.mem_append, List.mem_cons] at apart ⊢
            constructor
            · intro member
              exact ⟨by tauto, fun same => apart (same ▸ member)⟩
            · rintro ⟨member, other⟩
              have other' := Ne.symm other
              tauto

namespace HoleFor

variable (hole : HoleFor kernel store areas record prev vmStart vmEnd)
  (merges : store.merging record prev (prev.bind store.next) vmStart vmEnd = some merge)

include hole

theorem next_mem {later : VmaId} (link : prev.bind store.next = some later) : later ∈ areas := by
  obtain ⟨id, named, link⟩ := Option.bind_eq_some_iff.mp link
  obtain ⟨front, back, split⟩ := hole.next_split named link
  rw [split]
  simp

include merges

/-- The merged area lies inside the store's range. -/
theorem merge_within : kernel.areaStart ≤ merge.start ∧ merge.start < merge.stop ∧
    merge.stop ≤ kernel.areaEnd := by
  have proper := hole.proper
  obtain ⟨id, named, rfl, rfl, rfl⟩ | ⟨id, link, rfl, rfl, rfl⟩ |
    ⟨id, later, named, link, rfl, rfl, rfl, _, rfl⟩ := merging_cases merges
  · have member := hole.inside id named
    exact ⟨(hole.layout.within id member).1, (hole.layout.spaced.2 id member).trans proper, hole.high⟩
  · have member := hole.next_mem link
    exact ⟨hole.low, proper.trans (hole.layout.spaced.2 id member),
      (hole.layout.within id member).2⟩
  · have member := hole.inside id named
    have member' := hole.next_mem link
    exact ⟨(hole.layout.within id member).1, (hole.layout.spaced.2 id member).trans
      (proper.trans (hole.layout.spaced.2 later member')), (hole.layout.within later member').2⟩

theorem merge_aligned (aligned : Aligned store areas) (low : vmStart % pageSize = 0)
    (high : vmEnd % pageSize = 0) : merge.start % pageSize = 0 ∧ merge.stop % pageSize = 0 := by
  obtain ⟨id, named, rfl, rfl, rfl⟩ | ⟨id, link, rfl, rfl, rfl⟩ |
    ⟨id, later, named, link, rfl, rfl, rfl, _, rfl⟩ := merging_cases merges
  · exact ⟨(aligned.area id (hole.inside id named)).1, high⟩
  · exact ⟨low, (aligned.area id (hole.next_mem link)).2⟩
  · exact ⟨(aligned.area id (hole.inside id named)).1, (aligned.area later (hole.next_mem link)).2⟩

/-- A merge of areas that nobody has touched leaves the array that it keeps. -/
theorem merge_vacant (untouched : Untouched store areas) (fits : merge.Fits) :
    merge.result junk = some (true, merge.dst) ∧ merge.dst.Vacant merge.start merge.stop := by
  obtain ⟨low, proper, high⟩ := hole.merge_within merges
  have pages := Layout.pages_le kernel proper.le low high fits
  obtain ⟨id, named, rfl, rfl, rfl⟩ | ⟨id, link, rfl, rfl, rfl⟩ |
    ⟨id, later, named, link, rfl, rfl, rfl, _, rfl⟩ := merging_cases merges
  · have old := untouched id (hole.inside id named)
    exact ⟨posMergeMapArray_vacant junk _ fits (by simp), old.pn, pages, old.vacant⟩
  · refine ⟨posMergeMapArray_vacant junk _ fits ?_, rfl, pages, fun _ => rfl⟩
    rintro src ⟨⟩
    exact (untouched id (hole.next_mem link)).vacant
  · have old := untouched id (hole.inside id named)
    refine ⟨posMergeMapArray_vacant junk _ fits ?_, old.pn, pages, old.vacant⟩
    rintro src ⟨⟩
    exact (untouched later (hole.next_mem link)).vacant

end HoleFor

/-- What `pos_create_or_merge_vma` does with a hole: one area of the object is new or has grown. -/
structure Grown (kernel : Kernel) (store : Store ν) (areas : List VmaId) (record : RecordId)
    (prev next : Option VmaId) (vmStart vmEnd : Nat) (other : Store ν) (areas' : List VmaId) :
    Prop where
  changed : Changed kernel store areas record other areas' fun object addr =>
    Covers store areas object addr ∨ object = record ∧ vmStart ≤ addr ∧ addr < vmEnd
  aligned : Aligned store areas → vmStart % pageSize = 0 → vmEnd % pageSize = 0 →
    Aligned other areas'
  untouched : Untouched store areas → store.RoomInMap record prev next vmStart vmEnd →
    Untouched other areas'

/-- `pos_create_or_merge_vma` in a hole, with the area before the hole as the search names it. -/
theorem posCreateOrMergeVma_spec (layout : Layout kernel store areas)
    (listed : (store.record record).vmList = store.areasOf areas record)
    (nonempty : (store.record record).vmList ≠ []) {prev : Option VmaId}
    (inside : ∀ id, prev = some id → id ∈ areas) {vmStart vmEnd : Nat} (proper : vmStart < vmEnd)
    (low : kernel.areaStart ≤ vmStart) (high : vmEnd ≤ kernel.areaEnd)
    (free : ∀ other ∈ areas, store.hi other ≤ vmStart ∨ vmEnd ≤ store.lo other)
    (notLater : ∀ id, prev = some id → store.hi id = vmStart →
      ∃ hit, store.sb.findCache = some hit ∧ store.hi hit ≤ vmStart)
    (result : store.posCreateOrMergeVma kernel junk record prev (prev.bind store.next) vmStart vmEnd =
      some other) :
    ∃ areas', Grown kernel store areas record prev (prev.bind store.next) vmStart vmEnd other
      areas' := by
  have hole : HoleFor kernel store areas record prev vmStart vmEnd :=
    ⟨layout, listed, nonempty, inside, proper, low, high, free, notLater⟩
  cases merges : store.merging record prev (prev.bind store.next) vmStart vmEnd with
  | none =>
      obtain ⟨final, areas', step, changed, edited, members⟩ :=
        @posCreateOrMergeVma_apart _ _ junk _ _ _ _ _ _ hole merges
      obtain rfl := Option.some.inj (step.symm.trans result)
      have sub : areas' ⊆ store.nextVma :: areas := fun area member =>
        List.mem_cons.mpr ((members area).mp member)
      refine ⟨areas', changed, edited.aligned sub, fun untouched _ =>
        edited.untouched sub untouched ⟨rfl, ?_, fun _ => rfl⟩⟩
      exact Layout.pages_le kernel proper.le low high le_rfl
  | some merge =>
      obtain ⟨place, areas', step, members, placed⟩ :=
        @posCreateOrMergeVma_merges _ _ junk _ _ _ _ _ _ _ hole merges
      rw [step, Option.map_eq_some_iff] at result
      obtain ⟨⟨done, map⟩, merged, rfl⟩ := result
      obtain ⟨changed, edited⟩ := placed map
      have sub : areas' ⊆ merge.id :: areas := fun area member =>
        List.mem_cons_of_mem _ ((members area).mp member).1
      refine ⟨areas', changed, fun aligned start stop => ?_, fun untouched room => ?_⟩
      · obtain ⟨start', stop'⟩ := hole.merge_aligned merges aligned start stop
        exact edited.aligned sub aligned start' stop'
      · obtain ⟨kept, vacant⟩ := @HoleFor.merge_vacant _ _ junk _ _ _ _ _ _ _ hole merges untouched
          (fits_of_roomInMap room merges)
        obtain ⟨_, rfl⟩ := Prod.mk.inj (Option.some.inj (kept.symm.trans merged))
        exact edited.untouched sub untouched vacant

/-! ## Shrinking an object -/

/-- What remains of the objects when the addresses of one object in a range are gone. -/
structure Shrunk (kernel : Kernel) (store : Store ν) (areas : List VmaId) (record : RecordId)
    (vmStart vmEnd : Nat) (other : Store ν) (areas' : List VmaId) : Prop where
  changed : Changed kernel store areas record other areas' fun object addr =>
    Covers store areas object addr ∧ ¬(vmStart ≤ addr ∧ addr < vmEnd)
  aligned : Aligned store areas → vmStart % pageSize = 0 → Aligned other areas'
  untouched : Untouched store areas → Untouched other areas'

/-- The counters do not matter. -/
theorem Shrunk.recounted {vmStart vmEnd : Nat}
    (shrunk : Shrunk kernel store areas record vmStart vmEnd other areas') (count : Int) :
    Shrunk kernel store areas record vmStart vmEnd
      { other with sb := { other.sb with vmCount := count } } areas' where
  changed := { shrunk.changed with
    layout := shrunk.changed.layout.withCaches rfl rfl shrunk.changed.layout.cached }
  aligned aligned start :=
    have aligned' := shrunk.aligned aligned start
    ⟨aligned'.area, aligned'.cache⟩
  untouched := shrunk.untouched

/-- Two areas that share an address are the same. -/
theorem Layout.eq_of_mem (layout : Layout kernel store areas) {first second : VmaId}
    (member : first ∈ areas) (member' : second ∈ areas) {addr : Nat} (low : store.lo first ≤ addr)
    (high : addr < store.hi first) (low' : store.lo second ≤ addr) (high' : addr < store.hi second) :
    first = second :=
  layout.spaced.eq_of_mem member member' low high low' high'

/-- An area is unlinked everywhere. -/
theorem remove_spec (layout : Layout kernel store (front ++ id :: back)) :
    Shrunk kernel store (front ++ id :: back) (store.owner id) (store.lo id) (store.hi id)
      ((store.posRemoveVmArea kernel id front.getLast?).listDel id) (front ++ back) := by
  obtain ⟨layout', same, known⟩ := layout.posRemoveVmArea_spec
  generalize store.posRemoveVmArea kernel id front.getLast? = removed at *
  have nodup := layout.nodup
  have sub : (front ++ back).Sublist (front ++ id :: back) :=
    List.Sublist.append_left (List.sublist_cons_self ..) front
  have owner : (removed.listDel id).owner = store.owner := by
    funext old
    exact same.nsRecord old
  have own : (removed.vma id).nsRecord = store.owner id := same.nsRecord id
  have desc : (removed.listDel id).record = Function.update store.record (store.owner id)
      { store.record (store.owner id) with
        vmList := (store.record (store.owner id)).vmList.erase id } := by
    rw [← own, ← same.record]
    rfl
  have mapOf : (removed.listDel id).mapOf = store.mapOf := by
    funext old
    exact same.mapArray old
  have lo : (removed.listDel id).lo = store.lo := same.lo
  have hi : (removed.listDel id).hi = store.hi := same.hi
  have notFront : id ∉ front := fun member =>
    (List.nodup_append.mp nodup).2.2 id member id (List.mem_cons_self ..) rfl
  have notBack : id ∉ back := (List.nodup_cons.mp (List.nodup_append.mp nodup).2.1).1
  have others : ∀ area ∈ front ++ back, area ≠ id := by
    rintro area member rfl
    rcases List.mem_append.mp member with inFront | inBack
    · exact notFront inFront
    · exact notBack inBack
  refine ⟨⟨layout'.setRecord .., fun object addr => ?_, fun old member => ?_,
    fun object listed => ?_, fun object => ?_, same.names, same.nsCount, same.nextRecord⟩,
    fun aligned _ => ⟨fun old member => ?_, ?_⟩, fun untouched old member => ?_⟩
  · rw [Covers, owner, lo, hi]
    constructor
    · rintro ⟨area, member, owns, low, high⟩
      refine ⟨⟨area, sub.subset member, owns, low, high⟩, fun here => ?_⟩
      exact others area member
        (layout.eq_of_mem (sub.subset member) (by simp) low high here.1 here.2)
    · rintro ⟨⟨area, member, owns, low, high⟩, outside⟩
      refine ⟨area, ?_, owns, low, high⟩
      have ne : area ≠ id := by
        rintro rfl
        exact outside ⟨low, high⟩
      simp only [List.mem_append, List.mem_cons] at member ⊢
      tauto
  · rw [owner]
    exact Or.inr ⟨old, sub.subset member, rfl⟩
  · exact listed_remove notFront desc owner listed
  · exact records_remove desc object
  · rw [lo, hi]
    exact aligned.area old (sub.subset member)
  · exact aligned.known known
  · rw [lo, hi, mapOf]
    exact untouched old (sub.subset member)

/-- The end of an area is cut off. -/
theorem cut_spec (layout : Layout kernel store areas) (member : id ∈ areas) {addr : Nat}
    (low : store.lo id < addr) (high : addr < store.hi id) (nrPages : Nat) {map : MapArray}
    (kept : Untouched store areas → map = store.mapOf id) :
    Shrunk kernel store areas (store.owner id) addr (store.hi id)
      (store.setVma id fun area =>
        { area with vmEnd := addr, nrPages := nrPages, mapArray := map }) areas := by
  have edited : Edited store (store.setVma id fun area =>
      { area with vmEnd := addr, nrPages := nrPages, mapArray := map }) (store.owner id) id
      (store.lo id) addr map := setVma_edited id _
  refine ⟨?_, fun aligned start => edited.aligned (List.subset_cons_self ..) aligned
    (aligned.area id member).1 start, fun untouched => edited.untouched (List.subset_cons_self ..)
    untouched (kept untouched ▸ (untouched id member).mono high.le)⟩
  obtain ⟨front, back, rfl⟩ := List.append_of_mem member
  obtain ⟨_, tail, apart⟩ := Spaced.append_iff.mp layout.spaced
  obtain ⟨_, _, later⟩ := Spaced.cons_iff.mp tail
  have within := layout.within id member
  have changed := @setVma_changed _ kernel store front back id layout
    (fun area => { area with vmEnd := addr, nrPages := nrPages, mapArray := map }) rfl rfl
    low within.1 (high.le.trans within.2)
    (fun earlier inFront => apart earlier inFront id (List.mem_cons_self ..))
    fun other inBack => high.le.trans (later other inBack)
  refine changed.of_iff fun object address => ?_
  constructor
  · rintro (⟨area, inside, ne, owns, here⟩ | ⟨rfl, here⟩)
    · refine ⟨⟨area, inside, owns, here⟩, fun cut => ne ?_⟩
      exact layout.eq_of_mem inside member here.1 here.2 (low.le.trans cut.1) cut.2
    · exact ⟨⟨id, member, rfl, here.1, here.2.trans high⟩, fun cut =>
        absurd here.2 (Nat.not_lt.mpr cut.1)⟩
  · rintro ⟨⟨area, inside, owns, here⟩, outside⟩
    by_cases same : area = id
    · subst same
      exact Or.inr ⟨owns.symm, here.1, Nat.lt_of_not_le fun past => outside ⟨past, here.2⟩⟩
    · exact Or.inl ⟨area, inside, same, owns, here⟩

/-- `pos_delete_or_split_vma` away from its wrong branches: it reports a failure and changes nothing,
or the addresses up to the end of the area are gone. -/
theorem posDeleteOrSplitVma_spec (layout : Layout kernel store (front ++ id :: back)) {addr len : Nat}
    (inside : addr < store.hi id) (small : len < 2 ^ 64)
    (notFirst : store.lo id = addr → len ≤ store.hi id - store.lo id)
    (notMiddle : store.lo id < addr → store.hi id ≤ (addr + len) % 2 ^ 64) {done : Bool}
    (result : store.posDeleteOrSplitVma kernel junk record id front.getLast? addr len =
      some (done, other)) :
    done = false ∧ other = store ∨
      done = true ∧ store.lo id ≤ addr ∧ addr + len = store.hi id ∧
        ∃ areas', Shrunk kernel store (front ++ id :: back) (store.owner id) addr (addr + len) other
          areas' := by
  have member : id ∈ front ++ id :: back := by simp
  have proper := layout.spaced.2 id member
  have bound : store.hi id < 2 ^ 64 := by
    have within := layout.within id member
    have small' := kernel.end_le
    rw [Kernel.areaEnd] at within
    omega
  rw [posDeleteOrSplitVma.eq_def] at result
  dsimp only at result
  by_cases outside : addr < store.lo id ∨ store.hi id < addr
  · rw [if_pos outside] at result
    cases result
    exact Or.inl ⟨rfl, rfl⟩
  · rw [if_neg outside] at result
    by_cases first : store.lo id = addr
    · subst first
      have short := notFirst rfl
      rw [if_pos rfl] at result
      by_cases whole : store.hi id - store.lo id = len
      · rw [if_pos whole] at result
        cases result
        have stop : store.lo id + len = store.hi id := by omega
        refine Or.inr ⟨rfl, le_rfl, stop, front ++ back, ?_⟩
        rw [stop]
        exact remove_spec layout
      · rw [if_neg whole, if_neg (by omega)] at result
        cases result
        exact Or.inl ⟨rfl, rfl⟩
    · have after : store.lo id < addr := by omega
      have past := notMiddle after
      rw [if_neg first] at result
      by_cases tail : (addr + len) % 2 ^ 64 = store.hi id
      · have stop : addr + len = store.hi id := by omega
        rw [if_pos tail] at result
        obtain ⟨map, rfl, rfl, kept⟩ : ∃ map, done = true ∧ other = store.setVma id (fun area =>
            { area with
              vmEnd := addr, nrPages := pagesBetween (store.lo id) addr, mapArray := map }) ∧
            (Untouched store (front ++ id :: back) → map = store.mapOf id) := by
          rw [vma_setVma_self] at result
          split at result
          · cases result
          · next reduced reducedEq =>
              have kept : Untouched store (front ++ id :: back) → reduced = store.mapOf id :=
                fun untouched => reduceSlot_vacant _ _ (untouched id member).vacant reducedEq
              split at result
              · cases result
                exact ⟨reduced, rfl, setVma_setVma .., kept⟩
              · split at result
                · cases result
                · next lower lowerEq =>
                    cases result
                    refine ⟨lower, rfl, setVma_setVma .., fun untouched => ?_⟩
                    have vacant := (untouched id member).vacant
                    rw [← kept untouched] at vacant
                    exact (reduceLevel_vacant _ vacant lowerEq).trans (kept untouched)
        refine Or.inr ⟨rfl, after.le, stop, front ++ id :: back, ?_⟩
        rw [stop]
        exact cut_spec layout member after inside _ kept
      · rw [if_neg tail, if_neg (by omega)] at result
        cases result
        exact Or.inl ⟨rfl, rfl⟩

end Store

end StorageStack.Pos
