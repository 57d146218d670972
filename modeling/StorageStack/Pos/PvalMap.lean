import StorageStack.Pos.Pval

/-!
# The map of section values

As long as no descriptor is removed, the table of chains, the trees and the map arrays are a map from
devices, inodes and pages to frames.  A removal leaves the removed descriptor in `find_cache`.
-/

namespace StorageStack.Pos

open IntervalTree

variable {kernel : Kernel} {junk : Junk} {table : PvalTable}

/-! ## Chains of devices -/

section Chains

variable {chain : List PvalDevice} {new : PvalDevice}

theorem findDevice_setDevice (device : Nat) (chain : List PvalDevice) :
    findDevice device (setDevice new chain) =
      if device = new.dev then some new else findDevice device chain := by
  induction chain with
  | nil =>
      by_cases same : device = new.dev
      · subst same
        simp [setDevice, findDevice]
      · have ne : new.dev ≠ device := fun eq => same eq.symm
        simp [setDevice, findDevice, same, ne]
  | cons old rest ih =>
      rw [setDevice]
      by_cases here : old.dev = new.dev
      · rw [if_pos here]
        by_cases same : device = new.dev
        · subst same
          simp [findDevice]
        · have ne : new.dev ≠ device := fun eq => same eq.symm
          have ne' : old.dev ≠ device := fun eq => ne (here.symm.trans eq)
          simp [findDevice, same, ne, ne']
      · rw [if_neg here]
        by_cases first : old.dev = device
        · have ne : device ≠ new.dev := fun eq => here (first.trans eq)
          simp [findDevice, first, ne]
        · rw [findDevice, List.find?_cons_of_neg (by simpa using first), ← findDevice, ih]
          split
          · rfl
          · rw [findDevice, findDevice, List.find?_cons_of_neg (by simpa using first)]

theorem mem_setDevice {device : PvalDevice} (nodup : (chain.map PvalDevice.dev).Nodup)
    (member : device ∈ setDevice new chain) :
    device = new ∨ device ∈ chain ∧ device.dev ≠ new.dev := by
  induction chain with
  | nil => exact Or.inl (List.mem_singleton.mp member)
  | cons old rest ih =>
      obtain ⟨fresh, nodup⟩ := List.nodup_cons.mp nodup
      rw [setDevice] at member
      split at member
      · next same =>
          rcases List.mem_cons.mp member with eq | later
          · exact Or.inl eq
          · refine Or.inr ⟨List.mem_cons_of_mem _ later, fun eq => fresh ?_⟩
            rw [same, ← eq]
            exact List.mem_map_of_mem later
      · next ne =>
          rcases List.mem_cons.mp member with rfl | later
          · exact Or.inr ⟨List.mem_cons_self .., ne⟩
          · rcases ih nodup later with eq | ⟨old, ne'⟩
            · exact Or.inl eq
            · exact Or.inr ⟨List.mem_cons_of_mem _ old, ne'⟩

theorem map_dev_setDevice (chain : List PvalDevice) : (setDevice new chain).map PvalDevice.dev =
    if new.dev ∈ chain.map PvalDevice.dev then chain.map PvalDevice.dev
    else chain.map PvalDevice.dev ++ [new.dev] := by
  induction chain with
  | nil => rfl
  | cons old rest ih =>
      rw [setDevice]
      by_cases same : old.dev = new.dev
      · simp [same]
      · have ne : new.dev ≠ old.dev := fun eq => same eq.symm
        rw [if_neg same, List.map_cons, ih, List.map_cons]
        simp only [List.mem_cons, ne, false_or]
        split <;> rfl

theorem nodup_setDevice (nodup : (chain.map PvalDevice.dev).Nodup) :
    ((setDevice new chain).map PvalDevice.dev).Nodup := by
  rw [map_dev_setDevice]
  split
  · exact nodup
  · next fresh =>
      refine List.nodup_append.mpr ⟨nodup, List.nodup_singleton _, fun dev member other same => ?_⟩
      rw [List.mem_singleton.mp same]
      exact ne_of_mem_of_not_mem member fresh

theorem findDevice_eq_some_of_mem (nodup : (chain.map PvalDevice.dev).Nodup)
    (member : new ∈ chain) : findDevice new.dev chain = some new := by
  induction chain with
  | nil => cases member
  | cons old rest ih =>
      obtain ⟨fresh, nodup⟩ := List.nodup_cons.mp nodup
      rcases List.mem_cons.mp member with rfl | later
      · simp [findDevice]
      · have ne : old.dev ≠ new.dev := fun eq => fresh (eq ▸ List.mem_map_of_mem later)
        rw [findDevice, List.find?_cons_of_neg (by simpa using ne), ← findDevice]
        exact ih nodup later

/-- Writing a device back changes nothing. -/
theorem setDevice_self (found : findDevice new.dev chain = some new) :
    setDevice new chain = chain := by
  induction chain with
  | nil => cases found
  | cons old rest ih =>
      rw [setDevice]
      by_cases same : old.dev = new.dev
      · rw [findDevice, List.find?_cons_of_pos (by simpa using same)] at found
        rw [if_pos same, Option.some.inj found]
      · rw [findDevice, List.find?_cons_of_neg (by simpa using same)] at found
        rw [if_neg same, ih found]

end Chains

namespace PvalTable

/-- Every chain has the devices of its slot, each once. -/
structure Chains (table : PvalTable) : Prop where
  nodup : ∀ slot, ((table.chain slot).map PvalDevice.dev).Nodup
  slot : ∀ slot, ∀ device ∈ table.chain slot, posPvalTableIndex device.dev = slot

theorem Chains.device_eq (chains : Chains table) {slot : Nat} {device : PvalDevice}
    (member : device ∈ table.chain slot) : table.device device.dev = some device := by
  obtain rfl := chains.slot slot device member
  exact findDevice_eq_some_of_mem (chains.nodup _) member

theorem mem_of_device {dev : Nat} {device : PvalDevice} (found : table.device dev = some device) :
    device ∈ table.chain (posPvalTableIndex dev) ∧ device.dev = dev :=
  ⟨List.mem_of_find?_eq_some found, by simpa using List.find?_some found⟩

@[simp] theorem device_setDesc (id : DescId) (new : PvalDescriptor) (dev : Nat) :
    (table.setDesc id new).device dev = table.device dev := rfl

@[simp] theorem device_setDevice (new : PvalDevice) (dev : Nat) :
    (table.setDevice new).device dev = if dev = new.dev then some new else table.device dev := by
  simp only [device, setDevice]
  by_cases slot : posPvalTableIndex dev = posPvalTableIndex new.dev
  · rw [slot, Function.update_self, findDevice_setDevice]
  · have ne : dev ≠ new.dev := fun eq => slot (congrArg _ eq)
    rw [Function.update_of_ne slot, if_neg ne]

theorem setDevice_eq_self {dev : Nat} {device : PvalDevice}
    (found : table.device dev = some device) : table.setDevice device = table := by
  obtain rfl := (mem_of_device found).2
  rw [setDevice, Pos.setDevice_self found, Function.update_eq_self]

theorem Chains.setDesc (chains : Chains table) (id : DescId) (new : PvalDescriptor) :
    Chains (table.setDesc id new) := ⟨chains.nodup, chains.slot⟩

theorem Chains.setDevice (chains : Chains table) (new : PvalDevice) :
    Chains (table.setDevice new) := by
  constructor
  · intro slot
    simp only [PvalTable.setDevice]
    by_cases same : slot = posPvalTableIndex new.dev
    · subst same
      rw [Function.update_self]
      exact nodup_setDevice (chains.nodup _)
    · rw [Function.update_of_ne same]
      exact chains.nodup slot
  · intro slot device member
    simp only [PvalTable.setDevice] at member
    by_cases same : slot = posPvalTableIndex new.dev
    · subst same
      rw [Function.update_self] at member
      rcases mem_setDevice (chains.nodup _) member with rfl | ⟨old, _⟩
      · rfl
      · exact chains.slot _ device old
    · rw [Function.update_of_ne same] at member
      exact chains.slot slot device member

/-! ## Descriptors of the table -/

/-- The descriptor is that of the inode, in the tree of the device. -/
def Has (table : PvalTable) (dev ino : Nat) (id : DescId) : Prop :=
  ∃ device, table.device dev = some device ∧ id ∈ device.devRb.inorder ∧ table.inoOf id = ino

/-- The map array of the descriptor has a word for every page, counted from the start of the segment
and around the end of the addresses. -/
structure Ready (descriptor : PvalDescriptor) : Prop where
  covers : ∃ level, descriptor.mapArray.level = level + 1 ∧
    Shaped (level + 1) descriptor.mapArray.pfns ∧ 2 ^ 52 ≤ posLevelToPages (level + 1)
  aligned : descriptor.segStart % pageSize = 0
  small : descriptor.segStart < 2 ^ 64

/-- The frame of a page of the file, by the address of the page. -/
def frameOf (descriptor : PvalDescriptor) (page : Nat) : Option Nat :=
  descriptor.mapArray.frameAt (Store.pagesBetween descriptor.segStart (page * pageSize))

/-- The trees are sorted and have no descriptor in common, the caches point into them, and their
descriptors have map arrays. -/
structure Sound (table : PvalTable) : Prop where
  chains : table.Chains
  sorted : ∀ dev device, table.device dev = some device →
    KeyedTree.Sorted table.inoOf device.devRb.inorder
  cached : ∀ dev device id, table.device dev = some device → device.findCache = some id →
    id ∈ device.devRb.inorder
  apart : ∀ dev dev' ino ino' id, table.Has dev ino id → table.Has dev' ino' id → dev = dev'
  ready : ∀ dev ino id, table.Has dev ino id → Ready (table.desc id)

/-- `pos_find_pval_desc` finds the descriptor of the inode in the tree, and changes the cache of the
device to what it has found. -/
theorem posFindPvalDesc_spec (sound : table.Sound) {dev : Nat} {device : PvalDevice}
    (found : table.device dev = some device) (ino : Nat) :
    (∃ id cache, table.posFindPvalDesc device ino = (some id, { device with findCache := cache }) ∧
        cache = some id ∧ id ∈ device.devRb.inorder ∧ table.inoOf id = ino) ∨
      (table.posFindPvalDesc device ino = (none, device) ∧
        ∀ id ∈ device.devRb.inorder, table.inoOf id ≠ ino) := by
  have sorted := sound.sorted dev device found
  have searched : ∀ result : Option DescId × PvalDevice,
      (KeyedTree.search table.inoOf ino device.devRb = none → result = (none, device)) →
      (∀ id, KeyedTree.search table.inoOf ino device.devRb = some id →
        result = (some id, { device with findCache := some id })) →
      (∃ id cache, result = (some id, { device with findCache := cache }) ∧
        cache = some id ∧ id ∈ device.devRb.inorder ∧ table.inoOf id = ino) ∨
      (result = (none, device) ∧ ∀ id ∈ device.devRb.inorder, table.inoOf id ≠ ino) := by
    intro result ofMiss ofHit
    cases hit : KeyedTree.search table.inoOf ino device.devRb with
    | none => exact Or.inr ⟨ofMiss hit, (KeyedTree.search_eq_none_iff _ sorted).mp hit⟩
    | some id =>
        obtain ⟨member, same⟩ := (KeyedTree.search_eq_some_iff _ sorted).mp hit
        exact Or.inl ⟨id, some id, ofHit id hit, rfl, member, same⟩
  rw [posFindPvalDesc]
  cases cache : device.findCache with
  | none => exact searched _ (fun miss => by rw [miss]) fun id hit => by rw [hit]
  | some id =>
      dsimp only
      by_cases same : table.inoOf id = ino
      · rw [if_pos same]
        refine Or.inl ⟨id, some id, ?_, rfl, sound.cached dev device id found cache, same⟩
        rw [← cache]
      · rw [if_neg same]
        exact searched _ (fun miss => by rw [miss]) fun id hit => by rw [hit]

/-- A search finds a descriptor exactly if the table has one. -/
theorem isSome_lookup_iff (sound : table.Sound) {dev ino : Nat} :
    (table.lookup dev ino).isSome ↔ ∃ id, table.Has dev ino id := by
  rw [lookup]
  cases found : table.device dev with
  | none =>
      refine iff_of_false Bool.false_ne_true ?_
      rintro ⟨id, device, found', _⟩
      rw [found] at found'
      cases found'
  | some device =>
      rw [Option.bind_some]
      rcases posFindPvalDesc_spec sound found ino with
        ⟨id, cache, eq, _, member, same⟩ | ⟨eq, free⟩
      · rw [eq]
        exact iff_of_true rfl ⟨id, device, found, member, same⟩
      · rw [eq]
        refine iff_of_false Bool.false_ne_true ?_
        rintro ⟨id, other, found', member, same⟩
        obtain rfl := Option.some.inj (found.symm.trans found')
        exact free id member same

/-! ## Writing a descriptor -/

/-- A descriptor of an inode has been written, and is in the tree of the device. -/
structure Written (table table' : PvalTable) (dev ino : Nat) (id : DescId) (new : PvalDescriptor) :
    Prop where
  chains : table'.Chains
  desc : table'.desc = Function.update table.desc id new
  stored : ∃ device, (∀ other, table'.device other =
        if other = dev then some device else table.device other) ∧
      KeyedTree.Sorted table'.inoOf device.devRb.inorder ∧
      (∀ item, item ∈ device.devRb.inorder ↔
        item = id ∨ ∃ old, table.device dev = some old ∧ item ∈ old.devRb.inorder) ∧
      ∀ item, device.findCache = some item → item ∈ device.devRb.inorder
  named : new.ino = ino
  only : ∀ dev' ino', table.Has dev' ino' id → dev' = dev ∧ ino' = ino
  ready : Ready new

namespace Written

variable {table' : PvalTable} {dev ino : Nat} {id : DescId} {new : PvalDescriptor}
  (written : Written table table' dev ino id new)
include written

theorem inoOf_self : table'.inoOf id = ino := by
  rw [inoOf, written.desc, Function.update_self, written.named]

theorem inoOf_of_ne {other : DescId} (ne : other ≠ id) : table'.inoOf other = table.inoOf other := by
  rw [inoOf, written.desc, Function.update_of_ne ne, inoOf]

/-- The table has the written descriptor, and those that it had. -/
theorem has_iff {dev' ino' : Nat} {id' : DescId} : table'.Has dev' ino' id' ↔
    (dev' = dev ∧ ino' = ino ∧ id' = id) ∨ (id' ≠ id ∧ table.Has dev' ino' id') := by
  obtain ⟨device, devices, _, members, _⟩ := written.stored
  constructor
  · rintro ⟨found, lookup, member, same⟩
    rw [devices] at lookup
    by_cases this : dev' = dev
    · rw [if_pos this] at lookup
      obtain rfl := Option.some.inj lookup
      by_cases self : id' = id
      · subst self
        exact Or.inl ⟨this, same.symm.trans written.inoOf_self, rfl⟩
      · obtain ⟨old, oldFound, oldMember⟩ := ((members id').mp member).resolve_left self
        rw [written.inoOf_of_ne self] at same
        exact Or.inr ⟨self, old, this ▸ oldFound, oldMember, same⟩
    · rw [if_neg this] at lookup
      by_cases self : id' = id
      · subst self
        exact absurd (written.only dev' _ ⟨found, lookup, member, rfl⟩).1 this
      · rw [written.inoOf_of_ne self] at same
        exact Or.inr ⟨self, found, lookup, member, same⟩
  · rintro (⟨rfl, rfl, rfl⟩ | ⟨ne, found, lookup, member, same⟩)
    · exact ⟨device, by rw [devices, if_pos rfl], (members id').mpr (Or.inl rfl),
        written.inoOf_self⟩
    · rw [← written.inoOf_of_ne ne] at same
      by_cases this : dev' = dev
      · subst this
        exact ⟨device, by rw [devices, if_pos rfl],
          (members id').mpr (Or.inr ⟨found, lookup, member⟩), same⟩
      · exact ⟨found, by rw [devices, if_neg this, lookup], member, same⟩

theorem sound (sound : table.Sound) : table'.Sound := by
  obtain ⟨device, devices, sorted, members, cached⟩ := written.stored
  refine ⟨written.chains, fun other found lookup => ?_, fun other found item lookup cache => ?_,
    fun first second _ _ item has has' => ?_, fun other _ item has => ?_⟩
  · rw [devices] at lookup
    by_cases this : other = dev
    · rw [if_pos this] at lookup
      obtain rfl := Option.some.inj lookup
      exact sorted
    · rw [if_neg this] at lookup
      refine (sound.sorted other found lookup).congr fun item member => written.inoOf_of_ne ?_
      rintro rfl
      exact this (written.only other _ ⟨found, lookup, member, rfl⟩).1
  · rw [devices] at lookup
    by_cases this : other = dev
    · rw [if_pos this] at lookup
      obtain rfl := Option.some.inj lookup
      exact cached item cache
    · rw [if_neg this] at lookup
      exact sound.cached other found item lookup cache
  · rcases written.has_iff.mp has with ⟨rfl, _, rfl⟩ | ⟨ne, old⟩
    · rcases written.has_iff.mp has' with ⟨rfl, _⟩ | ⟨ne, _⟩
      · rfl
      · exact absurd rfl ne
    · rcases written.has_iff.mp has' with ⟨_, _, eq⟩ | ⟨_, old'⟩
      · exact absurd eq ne
      · exact sound.apart _ _ _ _ item old old'
  · rw [written.desc]
    rcases written.has_iff.mp has with ⟨_, _, rfl⟩ | ⟨ne, old⟩
    · rw [Function.update_self]
      exact written.ready
    · rw [Function.update_of_ne ne]
      exact sound.ready _ _ item old

end Written

/-! ## Faults -/

theorem pagesBetween_lt (start addr : Nat) : Store.pagesBetween start addr < 2 ^ 52 := by
  rw [Store.pagesBetween, pageSize]
  omega

/-- The index of a page depends on the page only. -/
theorem pagesBetween_page {start : Nat} (aligned : start % pageSize = 0) (small : start < 2 ^ 64)
    (addr : Nat) :
    Store.pagesBetween start (addr / pageSize * pageSize) = Store.pagesBetween start addr := by
  simp only [Store.pagesBetween, pageSize] at aligned ⊢
  omega

/-- Different pages have different indices. -/
theorem pagesBetween_inj {start first second : Nat} (first_lt : first < 2 ^ 52)
    (second_lt : second < 2 ^ 52)
    (same : Store.pagesBetween start (first * pageSize) =
      Store.pagesBetween start (second * pageSize)) : first = second := by
  simp only [Store.pagesBetween, pageSize] at same
  omega

/-- A fault gives its page a frame, a fresh one if it has none, and keeps the frames of the others. -/
theorem posFindAndAllocPfnPval_spec (junk : Junk) (fresh : Nat) {id : DescId} {addr : Nat}
    (ready : Ready (table.desc id)) (inside : addr < 2 ^ 64) :
    ∃ map, table.posFindAndAllocPfnPval junk fresh id addr =
        some (.frame ((frameOf (table.desc id) (addr / pageSize)).getD fresh),
          table.setDesc id { table.desc id with mapArray := map }) ∧
      Ready { table.desc id with mapArray := map } ∧
      ∀ page < 2 ^ 52, frameOf { table.desc id with mapArray := map } page =
        if page = addr / pageSize then some ((frameOf (table.desc id) (addr / pageSize)).getD fresh)
        else frameOf (table.desc id) page := by
  obtain ⟨⟨level, atLevel, shaped, enough⟩, aligned, small⟩ := ready
  obtain ⟨words, step, wordsShaped, frames⟩ := posFindAndAllocPfn_spec junk fresh atLevel shaped
    ((pagesBetween_lt (table.desc id).segStart addr).trans_le enough)
  have here : frameOf (table.desc id) (addr / pageSize) =
      (table.desc id).mapArray.frameAt (Store.pagesBetween (table.desc id).segStart addr) := by
    rw [frameOf, pagesBetween_page aligned small]
  refine ⟨{ (table.desc id).mapArray with pfns := words }, ?_,
    ⟨⟨level, atLevel, wordsShaped, enough⟩, aligned, small⟩, fun page bound => ?_⟩
  · rw [posFindAndAllocPfnPval]
    dsimp only
    rw [step, here]
  · have page_lt : addr / pageSize < 2 ^ 52 := by
      rw [pageSize]
      omega
    rw [frameOf]
    dsimp only
    rw [frames, here]
    by_cases same : page = addr / pageSize
    · rw [if_pos same, if_pos (by rw [same, pagesBetween_page aligned small])]
    · rw [if_neg same, if_neg, frameOf]
      intro index
      rw [← pagesBetween_page aligned small addr] at index
      exact same (pagesBetween_inj bound page_lt index)

/-- The level computed from the difference the wrong way round is enough for every page. -/
theorem level_enough {vmStart vmEnd : Nat} (proper : vmStart < vmEnd) (user : vmEnd ≤ 2 ^ 47) :
    ∃ level, posPagesToLevel (Store.pagesBetween vmEnd vmStart) = level + 1 ∧
      2 ^ 52 ≤ posLevelToPages (level + 1) := by
  have many : 2 ^ 49 < Store.pagesBetween vmEnd vmStart := by
    rw [Store.pagesBetween, pageSize]
    omega
  have few := pagesBetween_lt vmEnd vmStart
  have fits := @le_posPagesToLevel (Store.pagesBetween vmEnd vmStart) (by
    simp only [posMapNr]
    omega)
  have high : 8 ≤ posPagesToLevel (Store.pagesBetween vmEnd vmStart) := by
    by_contra low
    have le : posMapNr ^ posPagesToLevel (Store.pagesBetween vmEnd vmStart) ≤ posMapNr ^ 7 :=
      Nat.pow_le_pow_right (by decide) (by omega)
    have seven : posMapNr ^ 7 = 2 ^ 49 := by decide
    omega
  refine ⟨posPagesToLevel (Store.pagesBetween vmEnd vmStart) - 1, by omega, ?_⟩
  have le : posMapNr ^ 8 ≤ posMapNr ^ posPagesToLevel (Store.pagesBetween vmEnd vmStart) :=
    Nat.pow_le_pow_right (by decide) high
  have eight : posMapNr ^ 8 = 2 ^ 56 := by decide
  rw [show posPagesToLevel (Store.pagesBetween vmEnd vmStart) - 1 + 1 =
    posPagesToLevel (Store.pagesBetween vmEnd vmStart) by omega, posLevelToPages]
  omega

/-- What a fault on an inode does: its descriptor is written, which has the frames of `old` and one for
the page of the address. -/
structure Faulted (table table' : PvalTable) (dev ino addr fresh : Nat) (id : DescId)
    (new : PvalDescriptor) (old : Nat → Option Nat) : Prop where
  written : Written table table' dev ino id new
  frames : ∀ page < 2 ^ 52, frameOf new page =
    if page = addr / pageSize then some ((old (addr / pageSize)).getD fresh) else old page
  before : (table.Has dev ino id ∧ old = frameOf (table.desc id)) ∨
    ((∀ other, ¬table.Has dev ino other) ∧ old = fun _ => none)

/-- A fault on an inode with a descriptor writes its map array. -/
theorem fault_known (sound : table.Sound) (junk : Junk) (fresh : Nat) {dev ino addr : Nat}
    {id : DescId} {device : PvalDevice} {cache : Option DescId} (inside : addr < 2 ^ 64)
    (found : table.device dev = some device) (member : id ∈ device.devRb.inorder)
    (same : table.inoOf id = ino) (cached : cache = some id) :
    ∃ pfn table' new old,
      (table.setDevice { device with findCache := cache }).posFindAndAllocPfnPval junk fresh id addr =
        some (.frame pfn, table') ∧
      Faulted table table' dev ino addr fresh id new old ∧
      pfn = (old (addr / pageSize)).getD fresh := by
  have has : table.Has dev ino id := ⟨device, found, member, same⟩
  have ready := sound.ready dev ino id has
  obtain ⟨map, step, ready', frames⟩ := @posFindAndAllocPfnPval_spec
    (table.setDevice { device with findCache := cache }) junk fresh id addr ready inside
  refine ⟨_, _, _, _, step, ⟨⟨?_, rfl, ⟨{ device with findCache := cache }, fun other => ?_, ?_,
    fun item => ?_, fun item hit => ?_⟩, same, fun dev' ino' has' => ?_, ready'⟩, frames,
    Or.inl ⟨has, rfl⟩⟩, rfl⟩
  · exact (sound.chains.setDevice _).setDesc ..
  · rw [device_setDesc, device_setDevice]
    simp only [(mem_of_device found).2]
  · refine (sound.sorted dev device found).congr fun item _ => ?_
    by_cases self : item = id
    · subst self
      simp only [inoOf, setDesc, Function.update_self]
      rfl
    · simp only [inoOf, setDesc, Function.update_of_ne self]
      rfl
  · constructor
    · exact fun inTree => Or.inr ⟨device, found, inTree⟩
    · rintro (rfl | ⟨old, found', inTree⟩)
      · exact member
      · obtain rfl := Option.some.inj (found.symm.trans found')
        exact inTree
  · obtain rfl := Option.some.inj (cached.symm.trans hit)
    exact member
  · refine ⟨sound.apart _ _ _ _ id has' has, ?_⟩
    obtain ⟨_, _, _, same'⟩ := has'
    exact same'.symm.trans same

/-- A fault on an inode without a descriptor links a new one. -/
theorem fault_unknown (sound : table.Sound) (junk : Junk) (fresh : Nat)
    {dev ino vmStart vmEnd addr : Nat} {id : DescId} {device : PvalDevice} (number : device.dev = dev)
    (aligned : vmStart % pageSize = 0) (user : vmEnd ≤ 2 ^ 47) (low : vmStart ≤ addr)
    (high : addr < vmEnd) (sorted : KeyedTree.Sorted table.inoOf device.devRb.inorder)
    (members : ∀ item, item ∈ device.devRb.inorder ↔
      ∃ old, table.device dev = some old ∧ item ∈ old.devRb.inorder)
    (cached : ∀ item, device.findCache = some item → item ∈ device.devRb.inorder)
    (free : ∀ item ∈ device.devRb.inorder, table.inoOf item ≠ ino)
    (unused : ∀ dev' ino', ¬table.Has dev' ino' id) :
    ∃ pfn table' new old,
      table.allocDescriptor kernel junk device ino vmStart vmEnd addr id fresh =
        some (.frame pfn, table') ∧
      Faulted table table' dev ino addr fresh id new old ∧
      pfn = (old (addr / pageSize)).getD fresh := by
  have outside : id ∉ device.devRb.inorder := by
    intro member
    obtain ⟨old, found, inTree⟩ := (members id).mp member
    exact unused dev (table.inoOf id) ⟨old, found, inTree, rfl⟩
  -- the table in which the inode number has been written
  have self : (table.setDesc id { table.desc id with ino := ino }).inoOf id = ino := by
    simp only [inoOf, setDesc, Function.update_self]
  have others : ∀ item ∈ device.devRb.inorder,
      (table.setDesc id { table.desc id with ino := ino }).inoOf item = table.inoOf item := by
    intro item member
    have ne : item ≠ id := ne_of_mem_of_not_mem member outside
    simp only [inoOf, setDesc, Function.update_of_ne ne]
  obtain ⟨linked, inserted, linkedSorted, linkedMembers⟩ := KeyedTree.insert_spec self device.devRb
    (sorted.congr others) fun item member => by
      rw [others item member]
      exact free item member
  obtain ⟨level, levelEq, enough⟩ := level_enough (low.trans_lt high) user
  have ready : Ready ⟨vmStart, vmEnd, ino,
      MapArray.new (posPagesToLevel (Store.pagesBetween vmEnd vmStart)) (vmStart / pageSize)⟩ :=
    ⟨⟨level, levelEq, shaped_empty level, enough⟩, aligned, by
      change vmStart < 2 ^ 64
      omega⟩
  generalize descriptorEq : (⟨vmStart, vmEnd, ino, MapArray.new
    (posPagesToLevel (Store.pagesBetween vmEnd vmStart)) (vmStart / pageSize)⟩ : PvalDescriptor) =
      descriptor at ready
  have bare : ∀ page, frameOf descriptor page = none := by
    intro page
    rw [← descriptorEq, frameOf, MapArray.frameAt, MapArray.new, wordAt_empty]
    rfl
  generalize tableEq : ((table.setDesc id { table.desc id with ino := ino }).setDevice
    { device with devRb := kernel.rbInsertColor linked }).setDesc id descriptor = linkedTable
  have here : linkedTable.desc id = descriptor := by
    rw [← tableEq]
    exact Function.update_self ..
  obtain ⟨map, step, ready', frames⟩ := posFindAndAllocPfnPval_spec junk fresh (here ▸ ready)
    (show addr < 2 ^ 64 by omega)
  rw [here] at step ready' frames
  refine ⟨fresh, linkedTable.setDesc id { descriptor with mapArray := map },
    { descriptor with mapArray := map }, fun _ => none, ?_, ⟨⟨?_, ?_, ⟨{ device with devRb := kernel.rbInsertColor linked },
    fun other => ?_, ?_, fun item => ?_, fun item hit => ?_⟩, ?_,
    fun dev' ino' has => absurd has (unused dev' ino'), ready'⟩, fun page bound => ?_,
    Or.inr ⟨?_, rfl⟩⟩, rfl⟩
  · rw [allocDescriptor]
    dsimp only
    rw [posInsertPvalDesc, self, inserted, Option.map_some]
    dsimp only
    rw [descriptorEq, tableEq, step, bare]
    rfl
  · rw [← tableEq]
    exact (((sound.chains.setDesc ..).setDevice _).setDesc ..).setDesc ..
  · rw [← tableEq]
    simp only [setDesc, setDevice, Function.update_idem]
  · rw [← tableEq, device_setDesc, device_setDesc, device_setDevice, device_setDesc, number]
  · rw [kernel.inorder_rbInsertColor]
    refine linkedSorted.congr fun item _ => ?_
    by_cases same : item = id
    · subst same
      rw [self, ← descriptorEq]
      simp only [inoOf, setDesc, Function.update_self]
    · rw [← tableEq]
      simp only [inoOf, setDesc, setDevice, Function.update_of_ne same]
  · rw [kernel.inorder_rbInsertColor, linkedMembers, members]
  · rw [kernel.inorder_rbInsertColor, linkedMembers]
    exact Or.inr (cached item hit)
  · rw [← descriptorEq]
  · rw [frames page bound, bare, bare]
  · rintro other ⟨old, found, member, same⟩
    exact free other ((members other).mpr ⟨old, found, member⟩) same

/-- `pos_find_and_alloc_pval_desc` returns the frame of the page, a fresh one if it has none. -/
theorem posFindAndAllocPvalDesc_spec (kernel : Kernel) (sound : table.Sound) (junk : Junk)
    (fresh : Nat) (dev ino : Nat) {vmStart vmEnd addr : Nat} {id : DescId}
    (aligned : vmStart % pageSize = 0) (user : vmEnd ≤ 2 ^ 47) (low : vmStart ≤ addr)
    (high : addr < vmEnd) (unused : ∀ dev' ino', ¬table.Has dev' ino' id) :
    ∃ pfn table' known new old,
      table.posFindAndAllocPvalDesc kernel junk dev ino vmStart vmEnd addr id fresh =
        some (.frame pfn, table') ∧
      Faulted table table' dev ino addr fresh known new old ∧
      pfn = (old (addr / pageSize)).getD fresh := by
  rw [posFindAndAllocPvalDesc.eq_def]
  cases found : table.device dev with
  | none =>
      obtain ⟨pfn, table', new, old, step, faulted⟩ := @fault_unknown kernel table sound junk
        fresh dev ino vmStart vmEnd addr id ⟨dev, none, .leaf⟩ rfl aligned user low high
        List.Pairwise.nil (fun item => by simp [SearchTree.inorder, found])
        (fun item hit => absurd hit.symm (Option.some_ne_none item))
        (fun item member => absurd member List.not_mem_nil) unused
      exact ⟨pfn, table', id, new, old, step, faulted⟩
  | some device =>
      rcases posFindPvalDesc_spec sound found ino with
        ⟨known, cache, eq, cached, member, same⟩ | ⟨eq, free⟩
      · obtain ⟨pfn, table', new, old, step, faulted⟩ := fault_known sound junk fresh
          (show addr < 2 ^ 64 by omega) found member same cached
        refine ⟨pfn, table', known, new, old, ?_, faulted⟩
        dsimp only
        rw [eq]
        exact step
      · obtain ⟨pfn, table', new, old, step, faulted⟩ := @fault_unknown kernel table sound junk
          fresh dev ino vmStart vmEnd addr id device (mem_of_device found).2 aligned user low high
          (sound.sorted dev device found)
          (fun item => by
          constructor
          · intro member
            exact ⟨device, found, member⟩
          · rintro ⟨other, found', member⟩
            obtain rfl := Option.some.inj (found.symm.trans found')
            exact member) (fun item hit => sound.cached dev device item found hit) free unused
        refine ⟨pfn, table', id, new, old, ?_, faulted⟩
        dsimp only
        rw [eq]
        exact step

end PvalTable

namespace PvalWorld

variable {world next : PvalWorld}

/-- The history is what the table says. -/
structure Kept (world : PvalWorld) : Prop where
  sound : world.table.Sound
  frames : ∀ dev ino page word, ⟨dev, ino, page, word⟩ ∈ world.history ↔ page < 2 ^ 52 ∧
    ∃ id pfn, world.table.Has dev ino id ∧
      PvalTable.frameOf (world.table.desc id) page = some pfn ∧ word = .frame pfn
  injective : ∀ first ∈ world.history, ∀ second ∈ world.history, first.word = second.word →
    first = second
  created : ∀ dev ino id, world.table.Has dev ino id →
    ∃ fault ∈ world.history, fault.device = dev ∧ fault.ino = ino

/-- An inode has one descriptor. -/
theorem Kept.desc_unique (kept : world.Kept) {dev ino : Nat} {id id' : DescId}
    (has : world.table.Has dev ino id) (has' : world.table.Has dev ino id') : id = id' := by
  obtain ⟨device, found, member, same⟩ := has
  obtain ⟨device', found', member', same'⟩ := has'
  obtain rfl := Option.some.inj (found.symm.trans found')
  have sorted := kept.sound.sorted dev device found
  have hit := (KeyedTree.search_eq_some_iff _ sorted).mpr ⟨member, same⟩
  rw [(KeyedTree.search_eq_some_iff _ sorted).mpr ⟨member', same'⟩] at hit
  exact (Option.some.inj hit).symm

theorem Kept.formsMap (kept : world.Kept) : world.FormsMap where
  found dev ino := by
    rw [PvalTable.isSome_lookup_iff kept.sound]
    constructor
    · rintro ⟨id, has⟩
      exact kept.created dev ino id has
    · rintro ⟨⟨dev, ino, page, word⟩, member, rfl, rfl⟩
      obtain ⟨_, id, _, has, _⟩ := (kept.frames dev ino page word).mp member
      exact ⟨id, has⟩
  cached slot device member id hit :=
    kept.sound.cached device.dev device id (kept.sound.chains.device_eq member) hit
  frames first member second member' := by
    constructor
    · intro same
      obtain rfl := kept.injective first member second member' same
      exact ⟨rfl, rfl, rfl⟩
    · obtain ⟨dev, ino, page, word⟩ := first
      obtain ⟨dev', ino', page', word'⟩ := second
      rintro ⟨rfl, rfl, rfl⟩
      obtain ⟨_, id, pfn, has, frame, rfl⟩ := (kept.frames ..).mp member
      obtain ⟨_, id', pfn', has', frame', rfl⟩ := (kept.frames ..).mp member'
      obtain rfl := kept.desc_unique has has'
      rw [frame] at frame'
      rw [Option.some.inj frame']

/-- A fault of an admitted call succeeds and keeps the map. -/
theorem Kept.fault (kept : world.Kept) {dev ino vmStart vmEnd addr fresh : Nat} {id : DescId}
    (admitted : world.Admitted (.fault dev ino vmStart vmEnd addr id fresh)) :
    ∃ next, world.step kernel junk (.fault dev ino vmStart vmEnd addr id fresh) = some next ∧
      next.Kept := by
  obtain ⟨aligned, _, user, low, high, unused, freshWord⟩ := admitted
  obtain ⟨pfn, table', known, new, old, step, ⟨written, frames, before⟩, pfnEq⟩ :=
    PvalTable.posFindAndAllocPvalDesc_spec kernel kept.sound junk fresh dev ino aligned user low high
      (fun dev' ino' has => by
        obtain ⟨device, found, member, _⟩ := has
        exact unused _ device (PvalTable.mem_of_device found).1 member)
  have page_lt : addr / pageSize < 2 ^ 52 := by
    rw [pageSize]
    omega
  refine ⟨⟨table', ⟨dev, ino, addr / pageSize, .frame pfn⟩ :: world.history⟩, ?_, ?_⟩
  · rw [PvalWorld.step, step]
  -- the frames that the inode had are those of the history
  have oldFrames : ∀ page word, ⟨dev, ino, page, word⟩ ∈ world.history ↔
      page < 2 ^ 52 ∧ ∃ pfn, old page = some pfn ∧ word = .frame pfn := by
    intro page word
    rw [kept.frames]
    refine and_congr_right fun _ => ?_
    rcases before with ⟨has, rfl⟩ | ⟨hasNot, rfl⟩
    · constructor
      · rintro ⟨id', pfn, has', frame, eq⟩
        obtain rfl := kept.desc_unique has has'
        exact ⟨pfn, frame, eq⟩
      · rintro ⟨pfn, frame, eq⟩
        exact ⟨known, pfn, has, frame, eq⟩
    · refine iff_of_false ?_ ?_
      · rintro ⟨id', _, has', _⟩
        exact hasNot id' has'
      · rintro ⟨_, frame, _⟩
        cases frame
  have desc : ∀ id', id' ≠ known → table'.desc id' = world.table.desc id' := fun id' ne => by
    rw [written.desc, Function.update_of_ne ne]
  have descKnown : table'.desc known = new := by rw [written.desc, Function.update_self]
  refine ⟨written.sound kept.sound, fun dev' ino' page word => ?_, ?_, fun dev' ino' id' has => ?_⟩
  · rw [List.mem_cons]
    by_cases inode : dev' = dev ∧ ino' = ino
    · obtain ⟨rfl, rfl⟩ := inode
      -- the only descriptor of the inode is the one that has been written
      have only : ∀ id', table'.Has dev' ino' id' ↔ id' = known := by
        intro id'
        rw [written.has_iff]
        constructor
        · rintro (⟨_, _, eq⟩ | ⟨ne, has⟩)
          · exact eq
          · rcases before with ⟨has', _⟩ | ⟨hasNot, _⟩
            · exact absurd (kept.desc_unique has has') ne
            · exact absurd has (hasNot id')
        · exact fun eq => Or.inl ⟨rfl, rfl, eq⟩
      rw [oldFrames]
      constructor
      · rintro (eq | ⟨bound, pfn', frame, rfl⟩)
        · cases eq
          refine ⟨page_lt, known, pfn, (only known).mpr rfl, ?_, rfl⟩
          rw [descKnown, frames _ page_lt, if_pos rfl, pfnEq]
        · refine ⟨bound, known, pfn', (only known).mpr rfl, ?_, rfl⟩
          rw [descKnown, frames page bound]
          split
          · next same => rw [← same, frame, Option.getD_some]
          · exact frame
      · rintro ⟨bound, id', pfn', has, frame, rfl⟩
        obtain rfl := (only id').mp has
        rw [descKnown, frames page bound] at frame
        by_cases same : page = addr / pageSize
        · rw [if_pos same, ← pfnEq] at frame
          rw [Option.some.inj frame, same]
          exact Or.inl rfl
        · rw [if_neg same] at frame
          exact Or.inr ⟨bound, pfn', frame, rfl⟩
    · rw [kept.frames]
      constructor
      · rintro (eq | ⟨bound, id', pfn', has, frame, rfl⟩)
        · cases eq
          exact absurd ⟨rfl, rfl⟩ inode
        · have ne : id' ≠ known := by
            rintro rfl
            exact inode (written.only dev' ino' has)
          refine ⟨bound, id', pfn', written.has_iff.mpr (Or.inr ⟨ne, has⟩), ?_, rfl⟩
          rw [desc id' ne, frame]
      · rintro ⟨bound, id', pfn', has, frame, rfl⟩
        rcases written.has_iff.mp has with ⟨rfl, rfl, _⟩ | ⟨ne, has'⟩
        · exact absurd ⟨rfl, rfl⟩ inode
        · rw [desc id' ne] at frame
          exact Or.inr ⟨bound, id', pfn', has', frame, rfl⟩
  · -- the word of the fault is that of an earlier fault on the page, or fresh
    have head : ∀ second ∈ world.history, second.word = .frame pfn →
        second = ⟨dev, ino, addr / pageSize, .frame pfn⟩ := by
      intro second member same
      cases frame : old (addr / pageSize) with
      | none =>
          rw [frame, Option.getD_none] at pfnEq
          exact absurd (pfnEq ▸ same) (freshWord second member)
      | some pfn' =>
          rw [frame, Option.getD_some] at pfnEq
          exact kept.injective second member _
            ((oldFrames _ _).mpr ⟨page_lt, pfn, pfnEq ▸ frame, rfl⟩) same
    intro first member second member' same
    rcases List.mem_cons.mp member with rfl | earlier
    · rcases List.mem_cons.mp member' with rfl | earlier'
      · rfl
      · exact (head second earlier' same.symm).symm
    · rcases List.mem_cons.mp member' with rfl | earlier'
      · exact head first earlier same
      · exact kept.injective first earlier second earlier' same
  · rcases written.has_iff.mp has with ⟨rfl, rfl, _⟩ | ⟨_, old⟩
    · exact ⟨_, List.mem_cons_self .., rfl, rfl⟩
    · obtain ⟨fault, member, same⟩ := kept.created dev' ino' id' old
      exact ⟨fault, List.mem_cons_of_mem _ member, same⟩

/-- A removal that finds no descriptor changes nothing. -/
theorem Kept.remove (kept : world.Kept) {dev ino mode : Nat}
    (nothing : world.RemovesNothing (.remove dev ino mode)) :
    world.step kernel junk (.remove dev ino mode) = some world := by
  rw [PvalWorld.step, PvalTable.posFindAndRemovePvalDesc]
  by_cases plain : mode &&& PvalTable.sIxugo = 0
  · rw [if_pos plain, if_pos plain]
  · have missed := nothing.resolve_left plain
    rw [if_neg plain, if_neg plain]
    have history : (world.history.filter fun fault => ¬(fault.device = dev ∧ fault.ino = ino)) =
        world.history := by
      refine List.filter_eq_self.mpr fun fault member => ?_
      rw [decide_eq_true_iff]
      intro same
      have found := (kept.formsMap.found dev ino).mpr ⟨fault, member, same⟩
      rw [missed] at found
      cases found
    rw [history]
    cases found : world.table.device dev with
    | none => rfl
    | some device =>
        rcases PvalTable.posFindPvalDesc_spec kept.sound found ino with
          ⟨id, _, _, _, member, same⟩ | ⟨eq, _⟩
        · have hit := (PvalTable.isSome_lookup_iff kept.sound).mpr
            ⟨id, device, found, member, same⟩
          rw [missed] at hit
          cases hit
        · dsimp only
          rw [eq]
          dsimp only
          rw [PvalTable.setDevice_eq_self found]

/-- After a removal that finds a descriptor, the cache of the device is not in its tree. -/
theorem Kept.removesNothing (kept : world.Kept) {dev ino mode : Nat}
    (step : world.step kernel junk (.remove dev ino mode) = some next) (forms : next.FormsMap) :
    world.RemovesNothing (.remove dev ino mode) := by
  by_contra removes
  obtain ⟨executable, hit⟩ := not_or.mp removes
  obtain ⟨id, device, found, member, same⟩ := (PvalTable.isSome_lookup_iff kept.sound).mp
    (Option.isSome_iff_ne_none.mpr hit)
  rw [PvalWorld.step, PvalTable.posFindAndRemovePvalDesc, if_neg executable, found] at step
  dsimp only at step
  rcases PvalTable.posFindPvalDesc_spec kept.sound found ino with
    ⟨known, cache, eq, cached, _, _⟩ | ⟨_, free⟩
  · rw [eq] at step
    have table := congrArg PvalWorld.table (Option.some.inj step)
    have stored : next.table.device dev = some { device with
        findCache := cache, devRb := kernel.rbErase known device.devRb } := by
      rw [← table, PvalTable.device_setDevice, (PvalTable.mem_of_device found).2, if_pos rfl]
    have inTree := forms.cached _ _ (PvalTable.mem_of_device stored).1 known cached
    have nodup := (kept.sound.sorted dev device found).nodup
    rw [kernel.inorder_rbErase, nodup.mem_erase_iff] at inTree
    exact inTree.1 rfl
  · exact free id member same

theorem kept_start (desc : DescId → PvalDescriptor) : (start desc).Kept where
  sound := {
    chains := ⟨fun _ => List.nodup_nil, fun _ _ member => nomatch member⟩
    sorted := fun _ _ found => nomatch found
    cached := fun _ _ _ found => nomatch found
    apart := fun _ _ _ _ _ ⟨_, found, _⟩ => nomatch found
    ready := fun _ _ _ ⟨_, found, _⟩ => nomatch found }
  frames _ _ _ _ := by
    refine iff_of_false (fun member => nomatch member) ?_
    rintro ⟨_, _, _, ⟨_, found, _⟩, _⟩
    cases found
  injective _ member := nomatch member
  created _ _ _ := fun ⟨_, found, _⟩ => nomatch found

/-- A call that removes nothing keeps the map. -/
theorem Kept.step (kept : world.Kept) {call : PvalCall} (admitted : world.Admitted call)
    (nothing : world.RemovesNothing call) :
    ∃ next, world.step kernel junk call = some next ∧ next.Kept := by
  cases call with
  | fault => exact kept.fault admitted
  | remove => exact ⟨world, kept.remove nothing, kept⟩

/-- Every call of a run from the start comes to an end, and the descriptors form a map throughout,
exactly if no call removes a descriptor. -/
theorem formsMap_iff (kernel : Kernel) (junk : Junk) (desc : DescId → PvalDescriptor)
    (calls : List PvalCall)
    (admits : Execution.Meets (PvalWorld.step kernel junk) Admitted (start desc) calls) :
    ((Execution.run (PvalWorld.step kernel junk) (start desc) calls).isSome ∧
        Execution.Always (PvalWorld.step kernel junk) FormsMap (start desc) calls) ↔
      Execution.Meets (PvalWorld.step kernel junk) RemovesNothing (start desc) calls := by
  have exact : ∀ {final}, Execution.run (PvalWorld.step kernel junk) (start desc) calls =
      some final → (Execution.Always (PvalWorld.step kernel junk) FormsMap (start desc) calls ↔
        Execution.Meets (PvalWorld.step kernel junk) RemovesNothing (start desc) calls) := by
    intro final execution
    refine @Execution.always_iff_meets _ _ _ Admitted _ Kept _ (fun _ kept => kept.formsMap) ?_ ?_
      _ _ _ (kept_start desc) admits execution
    · intro world call next kept admitted nothing step
      obtain ⟨next', step', kept'⟩ := @Kept.step kernel junk world kept call admitted nothing
      obtain rfl := Option.some.inj (step.symm.trans step')
      exact kept'
    · intro world call next kept _ step forms
      cases call with
      | fault => trivial
      | remove => exact kept.removesNothing step forms
  constructor
  · rintro ⟨some, always⟩
    obtain ⟨final, execution⟩ := Option.isSome_iff_exists.mp some
    exact (exact execution).mp always
  · intro meets
    obtain ⟨final, execution, _⟩ := Execution.exists_run_of_meets
      (fun world call kept both => @Kept.step kernel junk world kept call both.1 both.2)
      (kept_start desc) (Execution.meets_and admits meets)
    exact ⟨Option.isSome_iff_exists.mpr ⟨final, execution⟩, (exact execution).mpr meets⟩

/-- One fault on the first page of a mapping of two pages. -/
theorem formsMap_iff_one_fault : Execution.Always (PvalWorld.step World.plainKernel World.zeroJunk)
    FormsMap (start fun _ => ⟨0, 0, 0, .new 1 0⟩) [.fault 3 5 4096 12288 4096 0 7] :=
  ((formsMap_iff World.plainKernel World.zeroJunk (fun _ => ⟨0, 0, 0, .new 1 0⟩)
    [.fault 3 5 4096 12288 4096 0 7] ⟨⟨by decide, by decide, by decide, by decide, by decide,
      (fun _ _ member => nomatch member), fun _ member => nomatch member⟩,
        fun _ _ => trivial⟩).mpr ⟨trivial, fun _ _ => trivial⟩).2

/-- After the descriptor has been removed, the device still has it as the one found last. -/
theorem removed_not_formsMap : ∃ final,
    Execution.run (PvalWorld.step World.plainKernel World.zeroJunk)
      (start fun _ => ⟨0, 0, 0, .new 1 0⟩)
      [.fault 3 5 4096 12288 4096 0 7, .remove 3 5 0o100] = some final ∧ ¬final.FormsMap := by
  have shape : (Execution.run (PvalWorld.step World.plainKernel World.zeroJunk)
      (start fun _ => ⟨0, 0, 0, .new 1 0⟩)
      [.fault 3 5 4096 12288 4096 0 7, .remove 3 5 0o100]).map (fun world =>
        (world.table.chain 3).map fun device => (device.findCache, device.devRb.inorder)) =
      some [(some 0, [])] := rfl
  obtain ⟨final, execution, chain⟩ := Option.map_eq_some_iff.mp shape
  refine ⟨final, execution, fun forms => ?_⟩
  obtain ⟨device, member, same⟩ := List.mem_map.mp (chain ▸ List.mem_singleton_self _)
  obtain ⟨cache, tree⟩ := Prod.mk.inj same
  have inTree := forms.cached 3 device member 0 cache
  rw [tree] at inTree
  cases inTree

end PvalWorld

end StorageStack.Pos
