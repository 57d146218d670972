import StorageStack.Pos.MapMerge
import StorageStack.Pos.WellFormed

/-!
# Pages of growing objects

An area that grows keeps the frames of its pages as long as its map array has levels enough for the
merged area: then a merge inserts the frames of one array into another and both find every page at its
number.  A merge that has to add a level gives the new array the level below, so that the words of an
old array are read as frames.
-/

namespace StorageStack.Pos

open Store

variable {junk : Junk} {map dst src : MapArray} {start middle low stop : Nat}

/-- The array maps the pages of an area. -/
structure MapArray.Maps (map : MapArray) (start stop : Nat) : Prop where
  pn : map.pn = start / pageSize
  numbered : Numbered map.level map.pn map.pfns
  pages : (stop - start) / pageSize ≤ posLevelToPages map.level
  inside : ∀ number pfn, map.Holds number pfn → number < stop / pageSize

theorem MapArray.not_holds_new (level pn number pfn : Nat) : ¬ (MapArray.new level pn).Holds number pfn := by
  rintro ⟨-, -, frame⟩
  rw [MapArray.frameAt, MapArray.new, wordAt_empty] at frame
  cases frame

theorem maps_new (level : Nat) (le : (stop - start) / pageSize ≤ posLevelToPages (level + 1)) :
    (MapArray.new (level + 1) (start / pageSize)).Maps start stop :=
  ⟨rfl, numbered_empty level _, le, fun _ _ holds => (MapArray.not_holds_new _ _ _ _ holds).elim⟩

/-- An array whose area has grown over pages without frames. -/
theorem MapArray.Maps.mono {stop' : Nat} (maps : map.Maps start stop) (le : stop ≤ stop')
    (pages : (stop' - start) / pageSize ≤ posLevelToPages map.level) : map.Maps start stop' :=
  ⟨maps.pn, maps.numbered, pages, fun number pfn holds =>
    (maps.inside number pfn holds).trans_le (Nat.div_le_div_right le)⟩

/-- A copy of the array of a later area of the object gives an array of both areas. -/
theorem copyAndFree_maps (dst_maps : dst.Maps start middle) (src_maps : src.Maps low stop)
    (ascending : start ≤ middle ∧ middle ≤ low ∧ low ≤ stop) (word : stop < 2 ^ 64)
    (aligned : start % pageSize = 0) (pages : (stop - start) / pageSize ≤ posLevelToPages dst.level)
    (creates : ∀ number pfn, src.Holds number pfn →
      CreatesRight junk dst.level dst.pn dst.pfns (number - dst.pn)) :
    ∃ after, copyAndFree junk (start / pageSize) src.slot dst = some (true, after) ∧
      after.Maps start stop ∧
      ∀ number pfn, after.Holds number pfn ↔ dst.Holds number pfn ∨ src.Holds number pfn := by
  have first : ∀ {number pfn}, src.Holds number pfn → middle / pageSize ≤ number := by
    intro number pfn holds
    have from_low := holds.1
    rw [src_maps.pn] at from_low
    exact (Nat.div_le_div_right ascending.2.1).trans from_low
  have last : ∀ {number pfn}, src.Holds number pfn →
      number < dst.pn + posLevelToPages dst.level ∧ number < 2 ^ 64 := by
    intro number pfn holds
    have before_stop := src_maps.inside number pfn holds
    have pn := dst_maps.pn
    simp only [pageSize] at before_stop aligned pages pn
    omega
  have from_start : start / pageSize ≤ middle / pageSize := Nat.div_le_div_right ascending.1
  have takes : Takes junk dst dst.pn src := by
    refine ⟨dst_maps.numbered, src_maps.numbered, fun number pfn holds => ?_,
      fun number pfn holds => ?_, creates⟩
    · have from_middle := first holds
      rw [dst_maps.pn]
      exact ⟨from_start.trans from_middle, dst_maps.pn ▸ (last holds).1, (last holds).2⟩
    · have from_middle := first holds
      apply Option.eq_none_iff_forall_ne_some.2
      intro other frame
      have from_pn : dst.pn ≤ number := dst_maps.pn ▸ from_start.trans from_middle
      have before_middle := dst_maps.inside number other ⟨from_pn, (last holds).1, frame⟩
      omega
  obtain ⟨words, copied, numbered, frames⟩ := copyAndFree_spec takes
  have holds_iff : ∀ number pfn, ({ dst with pfns := words } : MapArray).Holds number pfn ↔
      dst.Holds number pfn ∨ src.Holds number pfn := by
    intro number pfn
    simp only [MapArray.Holds]
    constructor
    · rintro ⟨from_pn, below, frame⟩
      rcases (frames _ _).1 frame with own | given
      · exact .inl ⟨from_pn, below, own⟩
      · rw [Nat.add_sub_cancel' from_pn] at given
        exact .inr given
    · rintro (⟨from_pn, below, own⟩ | given)
      · exact ⟨from_pn, below, (frames _ _).2 (.inl own)⟩
      · have room := takes.room number pfn given
        refine ⟨room.1, room.2.1, (frames _ _).2 (.inr ?_)⟩
        rwa [Nat.add_sub_cancel' room.1]
  refine ⟨{ dst with pfns := words }, by rw [← dst_maps.pn]; exact copied,
    ⟨dst_maps.pn, numbered, pages, fun number pfn holds => ?_⟩, holds_iff⟩
  rcases (holds_iff number pfn).1 holds with own | given
  · have le : middle / pageSize ≤ stop / pageSize :=
      Nat.div_le_div_right (ascending.2.1.trans ascending.2.2)
    exact (dst_maps.inside number pfn own).trans_le le
  · exact src_maps.inside number pfn given

namespace Store

variable {ν : Type} {kernel : Kernel} {store other : Store ν} {areas areas' : List VmaId}
  {record : RecordId} {prev next : Option VmaId} {vmStart vmEnd : Nat} {merge : Merge}

/-- The page with the number has the frame in an area. -/
def HasFrame (store : Store ν) (areas : List VmaId) (number pfn : Nat) : Prop :=
  ∃ id ∈ areas, (store.mapOf id).Holds number pfn

/-- Every area has an array that maps its pages, and no frame belongs to two pages. -/
structure Paged (kernel : Kernel) (store : Store ν) (areas : List VmaId) : Prop where
  layout : Layout kernel store areas
  aligned : Aligned store areas
  maps : ∀ id ∈ areas, (store.mapOf id).Maps (store.lo id) (store.hi id)
  apart : ∀ number number' pfn, HasFrame store areas number pfn → HasFrame store areas number' pfn →
    number = number'

/-- A page lies in one area only. -/
theorem Paged.eq_of_holds (paged : Paged kernel store areas) {first second : VmaId}
    {number pfn pfn' : Nat} (member : first ∈ areas) (member' : second ∈ areas)
    (holds : (store.mapOf first).Holds number pfn) (holds' : (store.mapOf second).Holds number pfn') :
    first = second := by
  have place : ∀ {id pfn}, id ∈ areas → (store.mapOf id).Holds number pfn →
      store.lo id ≤ number * pageSize ∧ number * pageSize < store.hi id := by
    intro id pfn member holds
    have from_start := holds.1
    rw [(paged.maps id member).pn] at from_start
    have before_stop := (paged.maps id member).inside number pfn holds
    have whole := paged.aligned.area id member
    simp only [pageSize] at from_start before_stop whole ⊢
    omega
  obtain ⟨low, high⟩ := place member holds
  obtain ⟨low', high'⟩ := place member' holds'
  exact paged.layout.eq_of_mem member member' low high low' high'

/-- A page has one frame. -/
theorem Paged.unique (paged : Paged kernel store areas) {number pfn pfn' : Nat}
    (has : HasFrame store areas number pfn) (has' : HasFrame store areas number pfn') :
    pfn = pfn' := by
  obtain ⟨id, member, holds⟩ := has
  obtain ⟨id', member', holds'⟩ := has'
  obtain rfl := paged.eq_of_holds member member' holds holds'
  have frame := holds'.2.2
  rw [holds.2.2] at frame
  exact Option.some.inj frame

/-! ## Merges -/

/-- The frames that the merge takes over go where descents create rightly. -/
def Merge.CreatesRight (junk : Junk) (merge : Merge) : Prop :=
  ∀ src, merge.src = some src → ∀ number pfn, src.Holds number pfn →
    Pos.CreatesRight junk merge.dst.level merge.dst.pn merge.dst.pfns (number - merge.dst.pn)

/-- The merge of arrays with levels enough gives an array of the merged area with the frames of the
areas that it joins. -/
theorem HoleFor.merge_maps (hole : HoleFor kernel store areas record prev vmStart vmEnd)
    (merges : store.merging record prev (prev.bind store.next) vmStart vmEnd = some merge)
    (paged : Paged kernel store areas) (start_aligned : vmStart % pageSize = 0) (fits : merge.Fits)
    (creates : merge.CreatesRight junk) :
    merge.id ∈ areas ∧ merge.gone ≠ some merge.id ∧
      ∃ map, merge.result junk = some (true, map) ∧ map.Maps merge.start merge.stop ∧
        ∀ number pfn, map.Holds number pfn ↔
          ∃ id ∈ areas, (id = merge.id ∨ merge.gone = some id) ∧
            (store.mapOf id).Holds number pfn := by
  obtain ⟨start_ge, proper, stop_le⟩ := hole.merge_within merges
  have pages := Layout.pages_le kernel proper.le start_ge stop_le fits
  have word : merge.stop < 2 ^ 64 := by
    have small := kernel.end_le
    rw [Kernel.areaEnd] at stop_le
    omega
  have enough : ¬ merge.dst.level < posPagesToLevel (pagesBetween merge.start merge.stop) :=
    Nat.not_lt.2 fits
  rw [Merge.result, posMergeMapArray.eq_def]
  dsimp only
  rw [if_neg enough]
  have hole_proper := hole.proper
  obtain ⟨id, named, rfl, rfl, rfl⟩ | ⟨id, link, rfl, rfl, rfl⟩ |
    ⟨id, later, named, link, rfl, rfl, rfl, _, rfl⟩ := merging_cases merges
  · have member := hole.inside id named
    refine ⟨member, by simp, _, rfl, (paged.maps id member).mono hole_proper.le pages, ?_⟩
    intro number pfn
    simp [member]
  · have member := hole.next_mem link
    have in_order := hole.layout.spaced.2 id member
    obtain ⟨level, level_eq⟩ : ∃ level, posPagesToLevel (store.vma id).nrPages = level + 1 :=
      Nat.exists_eq_add_of_le' (one_le_posPagesToLevel _)
    dsimp only at creates pages word ⊢
    rw [level_eq] at creates pages ⊢
    obtain ⟨map, copied, maps, holds⟩ := @copyAndFree_maps junk _ _ vmStart vmStart _ _
      (maps_new level (by simp)) (paged.maps id member) ⟨le_rfl, hole_proper.le, in_order.le⟩ word
      start_aligned pages (creates _ rfl)
    refine ⟨member, by simp, map, copied, maps, fun number pfn => ?_⟩
    rw [holds]
    simp [member, MapArray.not_holds_new]
  · have member := hole.inside id named
    have member' := hole.next_mem link
    have in_order := hole.layout.spaced.2 id member
    have in_order' := hole.layout.spaced.2 later member'
    have different : later ≠ id := by
      rintro rfl
      omega
    obtain ⟨map, copied, maps, holds⟩ := copyAndFree_maps (paged.maps id member)
      (paged.maps later member') ⟨in_order.le, hole_proper.le, in_order'.le⟩ word
      (paged.aligned.area id member).1 pages (creates _ rfl)
    refine ⟨member, by simpa using different, map, copied, maps, fun number pfn => ?_⟩
    rw [holds]
    constructor
    · rintro (own | given)
      · exact ⟨id, member, .inl rfl, own⟩
      · exact ⟨later, member', .inr rfl, given⟩
    · rintro ⟨other, -, rfl | same, there⟩
      · exact .inl there
      · cases same
        exact .inr there

/-! ## Steps -/

/-- The frames of pages after one area has got the array `map`. -/
theorem Edited.hasFrame_iff {id : VmaId} (edited : Edited store other record id start stop map)
    (member : id ∈ areas') {number pfn : Nat} :
    HasFrame other areas' number pfn ↔
      (∃ area ∈ areas', area ≠ id ∧ (store.mapOf area).Holds number pfn) ∨ map.Holds number pfn := by
  simp only [HasFrame, edited.mapOf]
  constructor
  · rintro ⟨area, inside, holds⟩
    by_cases same : area = id
    · rw [same, Function.update_self] at holds
      exact .inr holds
    · rw [Function.update_of_ne same] at holds
      exact .inl ⟨area, inside, same, holds⟩
  · rintro (⟨area, inside, different, holds⟩ | holds)
    · refine ⟨area, inside, ?_⟩
      rwa [Function.update_of_ne different]
    · refine ⟨id, member, ?_⟩
      rwa [Function.update_self]

/-- The arrays of the areas after one area has got the array `map`. -/
theorem Edited.maps {id : VmaId} (edited : Edited store other record id start stop map)
    (sub : areas' ⊆ id :: areas) (old : ∀ area ∈ areas, (store.mapOf area).Maps (store.lo area)
      (store.hi area)) (new : map.Maps start stop) :
    ∀ area ∈ areas', (other.mapOf area).Maps (other.lo area) (other.hi area) := by
  intro area member
  rw [edited.lo, edited.hi, edited.mapOf]
  by_cases same : area = id
  · rw [same, Function.update_self, Function.update_self, Function.update_self]
    exact new
  · rw [Function.update_of_ne same, Function.update_of_ne same, Function.update_of_ne same]
    exact old area ((List.mem_cons.mp (sub member)).resolve_left same)

/-- What an allocation keeps: the pages have the same frames as before. -/
structure Kept (kernel : Kernel) (store : Store ν) (areas : List VmaId) (record : RecordId)
    (vmStart vmEnd : Nat) (other : Store ν) (areas' : List VmaId) : Prop where
  changed : Changed kernel store areas record other areas' (store.Gains areas record vmStart vmEnd)
  paged : Paged kernel other areas'
  frames : ∀ number pfn, HasFrame other areas' number pfn ↔ HasFrame store areas number pfn

theorem Kept.of_frames (paged : Paged kernel store areas)
    (changed : Changed kernel store areas record other areas' (store.Gains areas record vmStart vmEnd))
    (aligned : Aligned other areas')
    (maps : ∀ id ∈ areas', (other.mapOf id).Maps (other.lo id) (other.hi id))
    (frames : ∀ number pfn, HasFrame other areas' number pfn ↔ HasFrame store areas number pfn) :
    Kept kernel store areas record vmStart vmEnd other areas' := by
  refine ⟨changed, ⟨changed.layout, aligned, maps, fun number number' pfn has has' => ?_⟩, frames⟩
  exact paged.apart number number' pfn ((frames _ _).1 has) ((frames _ _).1 has')

/-- The merge that an allocation makes, if any, reports success. -/
def mergeDone (junk : Junk) (store : Store ν) (record : RecordId) (prev next : Option VmaId)
    (vmStart vmEnd : Nat) : Option Bool :=
  match store.merging record prev next vmStart vmEnd with
  | none => some true
  | some merge => (merge.result junk).map Prod.fst

/-- `pos_create_or_merge_vma` keeps the frames of all pages when the array of the merged area has
levels enough and the arrays that the merge creates get the right numbers. -/
theorem posCreateOrMergeVma_kept (hole : HoleFor kernel store areas record prev vmStart vmEnd)
    (paged : Paged kernel store areas) (start_aligned : vmStart % pageSize = 0)
    (stop_aligned : vmEnd % pageSize = 0)
    (sound : ∀ merge, store.merging record prev (prev.bind store.next) vmStart vmEnd = some merge →
      merge.Fits ∧ merge.CreatesRight junk) :
    ∃ other areas', store.posCreateOrMergeVma kernel junk record prev (prev.bind store.next) vmStart
        vmEnd = some other ∧
      store.mergeDone junk record prev (prev.bind store.next) vmStart vmEnd = some true ∧
      Kept kernel store areas record vmStart vmEnd other areas' := by
  rw [mergeDone]
  cases merges : store.merging record prev (prev.bind store.next) vmStart vmEnd with
  | none =>
      obtain ⟨other, areas', step, changed, edited, members⟩ :=
        @posCreateOrMergeVma_apart _ _ junk _ _ _ _ _ _ hole merges
      have sub : areas' ⊆ store.nextVma :: areas := fun area member =>
        List.mem_cons.mpr ((members area).mp member)
      have pages := Layout.pages_le kernel hole.proper.le hole.low hole.high le_rfl
      obtain ⟨level, level_eq⟩ :
          ∃ level, posPagesToLevel (pagesBetween vmStart vmEnd) = level + 1 :=
        Nat.exists_eq_add_of_le' (one_le_posPagesToLevel _)
      rw [level_eq] at edited pages
      refine ⟨other, areas', step, rfl, .of_frames paged changed
        (edited.aligned sub paged.aligned start_aligned stop_aligned)
        (edited.maps sub paged.maps (maps_new level pages)) fun number pfn => ?_⟩
      have new : store.nextVma ∉ areas := fun member =>
        Nat.lt_irrefl _ (paged.layout.fresh _ member)
      rw [edited.hasFrame_iff ((members _).2 (.inl rfl))]
      constructor
      · rintro (⟨area, member, different, holds⟩ | holds)
        · exact ⟨area, ((members area).1 member).resolve_left different, holds⟩
        · exact (MapArray.not_holds_new _ _ _ _ holds).elim
      · rintro ⟨area, member, holds⟩
        exact .inl ⟨area, (members area).2 (.inr member), ne_of_mem_of_not_mem member new, holds⟩
  | some merge =>
      obtain ⟨fits, creates⟩ := sound merge merges
      obtain ⟨place, areas', step, members, placed⟩ :=
        @posCreateOrMergeVma_merges _ _ junk _ _ _ _ _ _ _ hole merges
      obtain ⟨member, stays, map, merged, maps, holds_iff⟩ :=
        hole.merge_maps merges paged start_aligned fits creates
      obtain ⟨changed, edited⟩ := placed map
      have sub : areas' ⊆ merge.id :: areas := fun area inside =>
        List.mem_cons_of_mem _ ((members area).mp inside).1
      obtain ⟨start', stop'⟩ := hole.merge_aligned merges paged.aligned start_aligned stop_aligned
      rw [merged] at step
      refine ⟨place map, areas', step, congrArg (Option.map Prod.fst) merged, .of_frames paged changed
        (edited.aligned sub paged.aligned start' stop')
        (edited.maps sub paged.maps maps) fun number pfn => ?_⟩
      rw [edited.hasFrame_iff ((members _).2 ⟨member, stays⟩), holds_iff]
      constructor
      · rintro (⟨area, inside, -, holds⟩ | ⟨area, inside, -, holds⟩)
        · exact ⟨area, ((members area).1 inside).1, holds⟩
        · exact ⟨area, inside, holds⟩
      · rintro ⟨area, inside, holds⟩
        by_cases joined : area = merge.id ∨ merge.gone = some area
        · exact .inr ⟨area, inside, joined, holds⟩
        · rw [not_or] at joined
          exact .inl ⟨area, (members area).2 ⟨inside, joined.2⟩, joined.1, holds⟩

/-- The search and the lookup of `do_pos_area_fault`; `fresh` is the frame that `pos_alloc_page`
gives. -/
def doPosAreaFault (junk : Junk) (store : Store ν) (fresh addr : Nat) : Option (Slot × Store ν) :=
  match store.posFindVma addr with
  | (none, _) => none
  | (some id, store) =>
      match posFindAndAllocPfn junk fresh (store.mapOf id) (pagesBetween (store.lo id) addr) with
      | none => none
      | some (word, map) => some (word, store.setVma id fun area => { area with mapArray := map })

/-- An area gets another array. -/
theorem setMap_layout (layout : Layout kernel store areas) (id : VmaId) (map : MapArray) :
    Layout kernel (store.setVma id fun area => { area with mapArray := map }) areas := by
  have next : (store.setVma id fun area => { area with mapArray := map }).next = store.next := by
    rw [next_setVma]
    exact Function.update_eq_self id store.next
  have lo : (store.setVma id fun area => { area with mapArray := map }).lo = store.lo := by
    rw [lo_setVma]
    exact Function.update_eq_self id store.lo
  have hi : (store.setVma id fun area => { area with mapArray := map }).hi = store.hi := by
    rw [hi_setVma]
    exact Function.update_eq_self id store.hi
  exact {
    chain := next.symm ▸ layout.chain
    inorder := layout.inorder
    spaced := by
      rw [lo, hi]
      exact layout.spaced
    within := by
      rw [lo, hi]
      exact layout.within
    fresh := layout.fresh
    cached := layout.cached }

/-- The search of a fault finds the area of the address and changes the cache at most. -/
theorem posFindVma_hit (layout : Layout kernel store areas) {id : VmaId} (member : id ∈ areas)
    {addr : Nat} (lower : store.lo id ≤ addr) (upper : addr < store.hi id) :
    ∃ middle, store.posFindVma addr = (some id, middle) ∧ Layout kernel middle areas ∧
      middle.vma = store.vma ∧ middle.record = store.record ∧
      middle.sb.names = store.sb.names ∧ middle.sb.freeAreaCache = store.sb.freeAreaCache := by
  obtain ⟨first, cache, second, cached, -⟩ := layout.posFindVma_spec addr
  rw [layout.head_behind member lower upper] at first
  exact ⟨_, Prod.ext first second, layout.withCaches rfl rfl cached, rfl, rfl, rfl, rfl⟩

/-- A fault changes that cache and the array of the area. -/
theorem doPosAreaFault_eq (layout : Layout kernel store areas) {id : VmaId} (member : id ∈ areas)
    {fresh addr : Nat} (lower : store.lo id ≤ addr) (upper : addr < store.hi id) :
    ∃ place : MapArray → Store ν, store.doPosAreaFault junk fresh addr =
        (posFindAndAllocPfn junk fresh (store.mapOf id) (pagesBetween (store.lo id) addr)).map
          (fun out => (out.1, place out.2)) ∧
      ∀ map, Layout kernel (place map) areas ∧
        Edited store (place map) (store.owner id) id (store.lo id) (store.hi id) map ∧
        (place map).record = store.record ∧ (place map).sb.names = store.sb.names := by
  obtain ⟨middle, found, layout', vma, record, names, free⟩ :=
    posFindVma_hit layout member lower upper
  refine ⟨fun map => middle.setVma id fun area => { area with mapArray := map }, ?_,
    fun map => ⟨?_, ?_, record, names⟩⟩
  · have mapId : middle.mapOf id = store.mapOf id := by rw [mapOf, vma, mapOf]
    have loId : middle.lo id = store.lo id := by rw [lo, vma, lo]
    rw [doPosAreaFault, found]
    dsimp only
    rw [mapId, loId]
    cases posFindAndAllocPfn junk fresh (store.mapOf id) (pagesBetween (store.lo id) addr) with
    | none => rfl
    | some out => rfl
  · exact setMap_layout layout' id map
  · refine @edited_of_vma _ store _ id { store.vma id with mapArray := map } (fun old ne => ?_) ?_ free
    · show { Function.update middle.vma id _ old with vmNext := none } = _
      rw [Function.update_of_ne ne, vma]
    · rw [vma_setVma_self, vma]

/-- What a fault keeps, and the frame that it returns. -/
structure Faulted (kernel : Kernel) (store : Store ν) (areas : List VmaId) (number pfn : Nat)
    (other : Store ν) : Prop where
  paged : Paged kernel other areas
  has : HasFrame other areas number pfn
  old : ∀ number pfn, HasFrame store areas number pfn → HasFrame other areas number pfn
  record : other.record = store.record
  owner : other.owner = store.owner
  names : other.sb.names = store.sb.names

/-- A fault on a page returns the frame of the page, or gives it one that is not in use. -/
theorem doPosAreaFault_faulted (paged : Paged kernel store areas) {id : VmaId} (member : id ∈ areas)
    {fresh addr : Nat} (lower : store.lo id ≤ addr) (upper : addr < store.hi id)
    (unused : ∀ number, ¬ HasFrame store areas number fresh)
    (creates : CreatesRight junk (store.mapOf id).level (store.mapOf id).pn (store.mapOf id).pfns
      (addr / pageSize - (store.mapOf id).pn)) :
    ∃ pfn other, store.doPosAreaFault junk fresh addr = some (.frame pfn, other) ∧
      Faulted kernel store areas (addr / pageSize) pfn other := by
  have maps := paged.maps id member
  have whole := paged.aligned.area id member
  have within := (paged.layout.within id member).2
  have small := kernel.end_le
  generalize number_eq : addr / pageSize = number at creates ⊢
  have page : pagesBetween (store.lo id) addr = number - (store.mapOf id).pn := by
    rw [Kernel.areaEnd] at within
    rw [pagesBetween_eq lower (by omega), maps.pn, ← number_eq]
    simp only [pageSize] at whole ⊢
    omega
  have from_pn : (store.mapOf id).pn ≤ number := by
    rw [maps.pn, ← number_eq]
    exact Nat.div_le_div_right lower
  have before_stop : number < store.hi id / pageSize := by
    simp only [pageSize] at whole number_eq ⊢
    omega
  have inside : number - (store.mapOf id).pn < posLevelToPages (store.mapOf id).level := by
    have pages := maps.pages
    have pn := maps.pn
    simp only [pageSize] at pages pn whole number_eq
    omega
  obtain ⟨place, step, placed⟩ := @doPosAreaFault_eq junk _ kernel store areas paged.layout id member
    fresh addr lower upper
  obtain ⟨words, found, frames, numbered⟩ := (findsFrame_iff junk fresh maps.numbered inside).2 creates
  rw [page, found] at step
  obtain ⟨layout, edited, record, names⟩ := placed { store.mapOf id with pfns := words }
  generalize pfn_eq : ((store.mapOf id).frameAt (number - (store.mapOf id).pn)).getD fresh = pfn
    at step frames
  -- The page has got the frame, if it had none; the other pages are as before.
  have holds_iff : ∀ number' pfn', ({ store.mapOf id with pfns := words } : MapArray).Holds number' pfn' ↔
      (store.mapOf id).Holds number' pfn' ∨ number' = number ∧ pfn' = pfn := by
    intro number' pfn'
    simp only [MapArray.Holds, frames]
    constructor
    · rintro ⟨from_pn', below, frame⟩
      by_cases here : number' - (store.mapOf id).pn = number - (store.mapOf id).pn
      · rw [if_pos here] at frame
        exact .inr ⟨by omega, (Option.some.inj frame).symm⟩
      · rw [if_neg here] at frame
        exact .inl ⟨from_pn', below, frame⟩
    · rintro (⟨from_pn', below, frame⟩ | ⟨rfl, rfl⟩)
      · refine ⟨from_pn', below, ?_⟩
        by_cases here : number' - (store.mapOf id).pn = number - (store.mapOf id).pn
        · rw [if_pos here, ← pfn_eq, ← here, frame]
          rfl
        · rw [if_neg here]
          exact frame
      · exact ⟨from_pn, by omega, if_pos rfl⟩
  have pfn_cases : HasFrame store areas number pfn ∨ pfn = fresh := by
    cases frame : (store.mapOf id).frameAt (number - (store.mapOf id).pn) with
    | none =>
        rw [frame] at pfn_eq
        exact .inr pfn_eq.symm
    | some old =>
        rw [frame] at pfn_eq
        obtain rfl : old = pfn := pfn_eq
        exact .inl ⟨id, member, from_pn, by omega, frame⟩
  have owner : (place { store.mapOf id with pfns := words }).owner = store.owner := by
    rw [edited.owner, Function.update_eq_self]
  have has_iff : ∀ number' pfn',
      HasFrame (place { store.mapOf id with pfns := words }) areas number' pfn' ↔
        HasFrame store areas number' pfn' ∨ number' = number ∧ pfn' = pfn := by
    intro number' pfn'
    rw [edited.hasFrame_iff member, holds_iff]
    constructor
    · rintro (⟨area, inside, -, holds⟩ | holds | new)
      · exact .inl ⟨area, inside, holds⟩
      · exact .inl ⟨id, member, holds⟩
      · exact .inr new
    · rintro (⟨area, inside, holds⟩ | new)
      · by_cases same : area = id
        · exact .inr (.inl (same ▸ holds))
        · exact .inl ⟨area, inside, same, holds⟩
      · exact .inr (.inr new)
  refine ⟨pfn, _, step, ⟨layout, ?_, ?_, ?_⟩, (has_iff _ _).2 (.inr ⟨rfl, rfl⟩),
    fun number' pfn' has => (has_iff _ _).2 (.inl has), record, owner, names⟩
  · exact edited.aligned (List.subset_cons_self ..) paged.aligned whole.1 whole.2
  · refine edited.maps (List.subset_cons_self ..) paged.maps ⟨maps.pn, numbered, maps.pages, ?_⟩
    intro number' pfn' holds
    rcases (holds_iff _ _).1 holds with old | ⟨rfl, -⟩
    · exact maps.inside number' pfn' old
    · exact before_stop
  · -- a frame that was in use is that of the page already
    have new : ∀ number', HasFrame store areas number' pfn → number' = number := by
      intro number' has
      rcases pfn_cases with before | rfl
      · exact paged.apart _ _ _ has before
      · exact (unused _ has).elim
    intro first second pfn' has has'
    rcases (has_iff _ _).1 has with old | ⟨rfl, rfl⟩
    · rcases (has_iff _ _).1 has' with old' | ⟨rfl, rfl⟩
      · exact paged.apart _ _ _ old old'
      · exact new first old
    · rcases (has_iff _ _).1 has' with old' | ⟨rfl, -⟩
      · exact (new second old').symm
      · rfl

/-- The part of `sys_pos_seg_alloc` that works on the store, with whether the merge that it makes
reports success. -/
def allocSegment [DecidableEq ν] (kernel : Kernel) (junk : Junk) (store : Store ν) (name : ν)
    (len : Nat) : Option (Bool × Store ν) :=
  let bytes := World.pageAlign len
  if len = 0 ∨ bytes = 0 ∨ posAreaSize < bytes then some (true, store)
  else
    match store.sb.names.lookup name with
    | none => some (true, store)
    | some record =>
        match store.posGetUnmappedArea kernel bytes with
        | none => none
        | some (vmStart, prev, store) =>
            let next := prev.bind store.next
            match store.mergeDone junk record prev next vmStart (vmStart + bytes),
              store.posCreateOrMergeVma kernel junk record prev next vmStart (vmStart + bytes) with
            | some done, some other => some (done, other)
            | _, _ => none

/-- Every object has areas, and its list holds them. -/
def Listed (store : Store ν) (areas : List VmaId) : Prop :=
  ∀ entry ∈ store.sb.names, (store.record entry.2).vmList = store.areasOf areas entry.2 ∧
    ∃ id ∈ areas, store.owner id = entry.2

theorem Listed.nonempty (listed : Listed store areas) {entry : ν × RecordId}
    (live : entry ∈ store.sb.names) : (store.record entry.2).vmList ≠ [] := by
  obtain ⟨list, id, member, owned⟩ := listed entry live
  rw [list]
  exact List.ne_nil_of_mem (mem_areasOf.mpr ⟨member, owned⟩)

theorem Kept.listed (kept : Kept kernel store areas record vmStart vmEnd other areas')
    (layout : Layout kernel store areas) (listed : Listed store areas) : Listed other areas' := by
  intro entry live
  rw [kept.changed.names] at live
  obtain ⟨list, id, member, owned⟩ := listed entry live
  refine ⟨kept.changed.listed entry.2 list, ?_⟩
  have covers : Covers store areas entry.2 (store.lo id) :=
    ⟨id, member, owned, le_rfl, layout.spaced.2 id member⟩
  obtain ⟨id', member', owned', -⟩ := (kept.changed.covers _ _).2 (.inl covers)
  exact ⟨id', member', owned'⟩

/-- Objects whose pages have not been touched. -/
def Fresh (kernel : Kernel) (store : Store ν) : Prop :=
  ∃ areas, Sound kernel store areas ∧ ∀ id ∈ areas, 1 ≤ (store.mapOf id).level

theorem MapArray.Vacant.not_holds (vacant : map.Vacant start stop) (number pfn : Nat) :
    ¬ map.Holds number pfn := by
  have empty : map.pfns = fun _ => .empty := funext vacant.vacant
  rintro ⟨-, -, frame⟩
  rw [MapArray.frameAt, empty, wordAt_empty] at frame
  cases frame

theorem MapArray.Vacant.maps (vacant : map.Vacant start stop) (level : 1 ≤ map.level) :
    map.Maps start stop := by
  obtain ⟨below, level_eq⟩ := Nat.exists_eq_add_of_le' level
  have empty : map.pfns = fun _ => .empty := funext vacant.vacant
  refine ⟨vacant.pn, ?_, vacant.pages, fun number pfn holds =>
    (MapArray.Vacant.not_holds vacant number pfn holds).elim⟩
  rw [level_eq, empty]
  exact numbered_empty below _

theorem Fresh.paged (fresh : Fresh kernel store) : ∃ areas, Paged kernel store areas ∧
    Listed store areas := by
  obtain ⟨areas, sound, levels⟩ := fresh
  refine ⟨areas, ⟨sound.layout, sound.aligned, fun id member =>
    MapArray.Vacant.maps (sound.untouched id member) (levels id member), ?_⟩, fun entry live => ?_⟩
  · rintro number number' pfn ⟨id, member, holds⟩
    exact (MapArray.Vacant.not_holds (sound.untouched id member) number pfn holds).elim
  · obtain ⟨id, member, owned, -⟩ := sound.prime entry live
    exact ⟨sound.catalogued.listed entry live, id, member, owned⟩

variable [DecidableEq ν]

/-- The search finds a hole, and the merge that follows keeps an array with levels enough and creates
arrays with the right numbers. -/
def MergesSoundly (kernel : Kernel) (junk : Junk) (store : Store ν) (name : ν) (len : Nat) : Prop :=
  ∀ record vmStart prev searched, store.sb.names.lookup name = some record →
    store.posGetUnmappedArea kernel (World.pageAlign len) = some (vmStart, prev, searched) →
      vmStart ≠ posError ∧
      ∀ merge, searched.merging record prev (prev.bind searched.next) vmStart
          (vmStart + World.pageAlign len) = some merge → merge.Fits ∧ merge.CreatesRight junk

/-- An allocation whose merge is sound keeps the frames of all pages. -/
theorem allocSegment_kept (paged : Paged kernel store areas) (listed : Listed store areas) {name : ν}
    {len : Nat} (sound : store.MergesSoundly kernel junk name len) :
    ∃ other areas', store.allocSegment kernel junk name len = some (true, other) ∧
      Paged kernel other areas' ∧ Listed other areas' ∧
      ∀ number pfn, HasFrame other areas' number pfn ↔ HasFrame store areas number pfn := by
  rw [allocSegment]
  dsimp only
  by_cases early : len = 0 ∨ World.pageAlign len = 0 ∨ posAreaSize < World.pageAlign len
  · rw [if_pos early]
    exact ⟨store, areas, rfl, paged, listed, fun _ _ => Iff.rfl⟩
  · rw [if_neg early]
    cases search : store.sb.names.lookup name with
    | none => exact ⟨store, areas, rfl, paged, listed, fun _ _ => Iff.rfl⟩
    | some record =>
        have live := Catalogued.mem_of_lookup search
        obtain ⟨vmStart, prev, sb, found, layout, same, inside, outcome⟩ :=
          paged.layout.posGetUnmappedArea_spec (World.pageAlign len)
        obtain ⟨hole_found, merges⟩ := sound record vmStart prev _ search found
        obtain ⟨low, high, known, cache, free, notLater⟩ :=
          outcome.resolve_left fun error => hole_found error.1
        have positive : 0 < World.pageAlign len :=
          Nat.pos_of_ne_zero fun zero => early (.inr (.inl zero))
        have hole : HoleFor kernel { store with sb := sb } areas record prev vmStart
            (vmStart + World.pageAlign len) :=
          ⟨layout, (listed _ live).1, listed.nonempty live, inside,
            Nat.lt_add_of_pos_right positive, low, high, free, notLater⟩
        have start_aligned := paged.aligned.known known
        have stop_aligned : (vmStart + World.pageAlign len) % pageSize = 0 := by
          rw [Nat.add_mod, start_aligned, World.pageAlign_mod, Nat.add_zero, Nat.zero_mod]
        have paged' : Paged kernel { store with sb := sb } areas :=
          ⟨layout, ⟨paged.aligned.area, cache ▸ stop_aligned⟩, paged.maps, paged.apart⟩
        have listed' : Listed { store with sb := sb } areas := fun entry inside =>
          listed entry (same.names ▸ inside)
        obtain ⟨other, areas', step, done, kept⟩ :=
          posCreateOrMergeVma_kept hole paged' start_aligned stop_aligned merges
        rw [found]
        dsimp only
        rw [done, step]
        exact ⟨other, areas', rfl, kept.paged, kept.listed layout listed', kept.frames⟩

end Store

/-! ## Runs -/

/-- The allocation of a segment of an object, or a fault on an address, for which `pos_alloc_page` has
the frame `fresh`. -/
inductive Access (ν : Type) where
  | alloc (name : ν) (len : Nat)
  | fault (addr fresh : Nat)

/-- The store with what the accesses have returned: whether all merges have reported success, and the
word that each fault has found, with the number of its page. -/
structure Faults (ν : Type) where
  store : Store ν
  merged : Bool
  returned : List (Nat × Slot)

namespace Faults

variable {ν : Type} [DecidableEq ν] {kernel : Kernel} {store : Store ν} {accesses : List (Access ν)}

def step (kernel : Kernel) (junk : Junk) (state : Faults ν) : Access ν → Option (Faults ν)
  | .alloc name len => (state.store.allocSegment kernel junk name len).map fun out =>
      { state with store := out.2, merged := state.merged && out.1 }
  | .fault addr fresh => (state.store.doPosAreaFault junk fresh addr).map fun out =>
      { state with store := out.2, returned := (addr / pageSize, out.1) :: state.returned }

/-- Faults are on allocated addresses, and `pos_alloc_page` gives frames that are not in use. -/
def Asked (state : Faults ν) : Access ν → Prop
  | .alloc _ _ => True
  | .fault addr fresh =>
      (∃ id ∈ state.store.sb.rb.inorder, state.store.lo id ≤ addr ∧ addr < state.store.hi id) ∧
        ∀ number, ¬ state.store.HasFrame state.store.sb.rb.inorder number fresh

/-- An allocation finds a hole, and neither its merge adds a level nor the access creates an array with
a wrong number. -/
def KeepsFrames (kernel : Kernel) (junk : Junk) (state : Faults ν) : Access ν → Prop
  | .alloc name len => state.store.MergesSoundly kernel junk name len
  | .fault addr _ => ∀ id ∈ state.store.sb.rb.inorder, state.store.lo id ≤ addr →
      addr < state.store.hi id → CreatesRight junk (state.store.mapOf id).level
        (state.store.mapOf id).pn (state.store.mapOf id).pfns
        (addr / pageSize - (state.store.mapOf id).pn)

/-- The accesses run to their end, no merge fails, and faults find the same frame exactly when they
are on the same page. -/
def Agree (kernel : Kernel) (junk : Junk) (store : Store ν) (accesses : List (Access ν)) : Prop :=
  ∃ final, Execution.run (step kernel junk) ⟨store, true, []⟩ accesses = some final ∧
    final.merged = true ∧ (∀ fault ∈ final.returned, ∃ pfn, fault.2 = .frame pfn) ∧
    ∀ first ∈ final.returned, ∀ second ∈ final.returned,
      first.1 = second.1 ↔ first.2 = second.2

/-- What the accesses keep: every fault has found the frame that its page still has. -/
structure Kept (kernel : Kernel) (state : Faults ν) (areas : List VmaId) : Prop where
  paged : Paged kernel state.store areas
  listed : Listed state.store areas
  merged : state.merged = true
  returned : ∀ fault ∈ state.returned, ∃ pfn, fault.2 = .frame pfn ∧
    HasFrame state.store areas fault.1 pfn

theorem step_kept {state : Faults ν} {areas : List VmaId} (kept : state.Kept kernel areas)
    {access : Access ν} (asked : state.Asked access) (keeps : state.KeepsFrames kernel junk access) :
    ∃ next, state.step kernel junk access = some next ∧ ∃ areas', next.Kept kernel areas' := by
  have inorder := kept.paged.layout.inorder
  cases access with
  | alloc name len =>
      obtain ⟨other, areas', step, paged, listed, frames⟩ := allocSegment_kept kept.paged kept.listed keeps
      refine ⟨{ state with store := other, merged := state.merged && true }, ?_, areas', paged, listed,
        ?_, fun fault member => ?_⟩
      · rw [Faults.step, step]
        rfl
      · rw [kept.merged]
        rfl
      · obtain ⟨pfn, found, has⟩ := kept.returned fault member
        exact ⟨pfn, found, (frames _ _).2 has⟩
  | fault addr fresh =>
      obtain ⟨⟨id, member, lower, upper⟩, unused⟩ := asked
      have creates := keeps id member lower upper
      rw [inorder] at member unused
      obtain ⟨pfn, other, step, faulted⟩ :=
        doPosAreaFault_faulted kept.paged member lower upper unused creates
      refine ⟨{ state with store := other, returned := (addr / pageSize, .frame pfn) :: state.returned },
        ?_, areas, faulted.paged, ?_, kept.merged, ?_⟩
      · rw [Faults.step, step]
        rfl
      · intro entry live
        rw [faulted.names] at live
        obtain ⟨list, owns⟩ := kept.listed entry live
        rw [faulted.record, areasOf, faulted.owner]
        exact ⟨list, owns⟩
      · intro fault inside
        rcases List.mem_cons.mp inside with rfl | old
        · exact ⟨pfn, rfl, faulted.has⟩
        · obtain ⟨pfn', found, has⟩ := kept.returned fault old
          exact ⟨pfn', found, faulted.old _ _ has⟩

/-- In every run whose accesses keep the frames, faults agree. -/
theorem agree_of_meets (fresh : Fresh kernel store)
    (asked : Execution.Meets (step kernel junk) Asked ⟨store, true, []⟩ accesses)
    (keeps : Execution.Meets (step kernel junk) (KeepsFrames kernel junk) ⟨store, true, []⟩ accesses) :
    Agree kernel junk store accesses := by
  obtain ⟨areas, paged, listed⟩ := fresh.paged
  have started : ∃ areas, Kept kernel ⟨store, true, []⟩ areas :=
    ⟨areas, paged, listed, rfl, fun fault member => absurd member List.not_mem_nil⟩
  have progress : ∀ (state : Faults ν) (access : Access ν), (∃ areas, state.Kept kernel areas) →
      state.Asked access ∧ state.KeepsFrames kernel junk access →
      ∃ next, state.step kernel junk access = some next ∧ ∃ areas, next.Kept kernel areas := by
    rintro state access ⟨areas, kept⟩ ⟨asked, keeps⟩
    exact step_kept kept asked keeps
  obtain ⟨final, execution, areas', kept⟩ :=
    Execution.exists_run_of_meets progress started (Execution.meets_and asked keeps)
  refine ⟨final, execution, kept.merged, fun fault member => ?_, fun first member second member' => ?_⟩
  · obtain ⟨pfn, found, -⟩ := kept.returned fault member
    exact ⟨pfn, found⟩
  · obtain ⟨pfn, found, has⟩ := kept.returned first member
    obtain ⟨pfn', found', has'⟩ := kept.returned second member'
    rw [found, found', Slot.frame.injEq]
    constructor
    · intro same
      rw [← same] at has'
      exact kept.paged.unique has has'
    · rintro rfl
      exact kept.paged.apart _ _ _ has has'

/-! ## An object of one page -/

/-- A store with an object of one page, after an object behind it has been deleted. -/
def onePage : Store Unit where
  sb :=
    { rb := .node .leaf 0 .leaf
      vmNext := some 0
      findCache := none
      cachedHoleSize := 2 ^ 64 - 1
      freeAreaCache := World.plainKernel.areaStart + pageSize
      nsCount := 1
      totalVm := 1
      vmCount := 1
      names := [((), 0)] }
  vma _ := ⟨World.plainKernel.areaStart, World.plainKernel.areaStart + pageSize, 1,
    .new 1 (World.plainKernel.areaStart / pageSize), 0, none⟩
  record _ := ⟨[0], World.plainKernel.areaStart, 0, 0, posDefaultMode, []⟩
  nextVma := 2
  nextRecord := 2

theorem onePage_vma : onePage.vma = fun _ => ⟨World.plainKernel.areaStart,
    World.plainKernel.areaStart + pageSize, 1, .new 1 (World.plainKernel.areaStart / pageSize), 0,
    none⟩ := rfl

theorem onePage_bounds (id : VmaId) : onePage.lo id = World.plainKernel.areaStart ∧
    onePage.hi id = World.plainKernel.areaStart + pageSize := by
  rw [lo, hi, onePage_vma]
  exact ⟨rfl, rfl⟩

theorem onePage_layout : Layout World.plainKernel onePage [0] where
  chain := ⟨rfl, rfl⟩
  inorder := rfl
  spaced := by
    refine ⟨List.pairwise_singleton _ _, fun id _ => ?_⟩
    rw [(onePage_bounds id).1, (onePage_bounds id).2]
    exact Nat.lt_add_of_pos_right (by decide)
  within id _ := by
    rw [(onePage_bounds id).1, (onePage_bounds id).2]
    exact ⟨le_rfl, by decide⟩
  fresh id member := by
    rw [List.mem_singleton.mp member]
    exact Nat.two_pos
  cached id hit := by cases hit

theorem onePage_catalogued : Catalogued onePage [0] where
  names := List.nodup_singleton _
  records := List.nodup_singleton _
  fresh entry live := by
    rw [List.mem_singleton.mp live]
    exact Nat.two_pos
  count := rfl
  owned id _ := ⟨((), 0), List.mem_singleton_self _, rfl⟩
  listed entry live := by
    rw [List.mem_singleton.mp live]
    rfl

theorem onePage_aligned : Aligned onePage [0] := by
  have start := World.plainKernel.start_aligned
  have stop : (World.plainKernel.areaStart + pageSize) % pageSize = 0 := by
    rw [Nat.add_mod_right]
    exact start
  refine ⟨fun id _ => ?_, stop⟩
  rw [(onePage_bounds id).1, (onePage_bounds id).2]
  exact ⟨start, stop⟩

theorem onePage_fresh : Fresh World.plainKernel onePage := by
  refine ⟨[0], ⟨onePage_layout, onePage_catalogued, onePage_aligned, fun id _ => ⟨?_, ?_, fun _ => rfl⟩,
    fun entry live => ?_⟩, fun id _ => (le_refl 1 : 1 ≤ (onePage.mapOf id).level)⟩
  · rw [(onePage_bounds id).1]
    rfl
  · rw [(onePage_bounds id).1, (onePage_bounds id).2, Nat.add_sub_cancel_left]
    exact (by decide : pageSize / pageSize ≤ posMapNr ^ 1)
  · rw [List.mem_singleton.mp live]
    refine ⟨0, List.mem_singleton_self _, rfl, ?_⟩
    rw [(onePage_bounds 0).1, (onePage_bounds 0).2]
    exact ⟨le_rfl, Nat.lt_add_of_pos_right (by decide)⟩

/-- The area grows by a page, and the new page is touched. -/
def touchNew : List (Access Unit) :=
  [.alloc () pageSize, .fault (World.plainKernel.areaStart + pageSize) 8]

theorem onePage_sound : onePage.MergesSoundly World.plainKernel World.zeroJunk () pageSize := by
  intro record vmStart prev searched search found
  obtain rfl : 0 = record := Option.some.inj search
  have start : (onePage.posGetUnmappedArea World.plainKernel (World.pageAlign pageSize)).map
      (fun out => out.1) = some (World.plainKernel.areaStart + pageSize) := rfl
  have merges : (onePage.posGetUnmappedArea World.plainKernel (World.pageAlign pageSize)).map
      (fun out => out.2.2.merging 0 out.2.1 (out.2.1.bind out.2.2.next) out.1
        (out.1 + World.pageAlign pageSize)) =
      some (some ⟨0, none, World.plainKernel.areaStart,
        World.plainKernel.areaStart + pageSize + World.pageAlign pageSize,
        .new 1 (World.plainKernel.areaStart / pageSize), none⟩) := rfl
  rw [found] at start merges
  refine ⟨?_, fun merge same => ?_⟩
  · obtain rfl : vmStart = World.plainKernel.areaStart + pageSize := Option.some.inj start
    decide
  · obtain rfl := Option.some.inj (same.symm.trans (Option.some.inj merges))
    refine ⟨?_, fun src gives => by cases gives⟩
    rw [Merge.Fits]
    decide

theorem touchNew_agree : Agree World.plainKernel World.zeroJunk onePage touchNew := by
  have shape : (step World.plainKernel World.zeroJunk ⟨onePage, true, []⟩ (.alloc () pageSize)).map
      (fun next => (next.store.sb.rb.inorder, next.store.lo 0, next.store.hi 0)) = some ([0],
        World.plainKernel.areaStart, World.plainKernel.areaStart + pageSize + pageSize) := rfl
  have array : (step World.plainKernel World.zeroJunk ⟨onePage, true, []⟩ (.alloc () pageSize)).map
      (fun next => ((next.store.mapOf 0).level, (next.store.mapOf 0).pfns)) =
      some (1, fun _ => .empty) := rfl
  have later : ∀ {next : Faults Unit}, step World.plainKernel World.zeroJunk ⟨onePage, true, []⟩
      (.alloc () pageSize) = some next → next.store.sb.rb.inorder = [0] ∧
        next.store.lo 0 = World.plainKernel.areaStart ∧
        next.store.hi 0 = World.plainKernel.areaStart + pageSize + pageSize ∧
        ∃ pn, next.store.mapOf 0 = .new 1 pn := by
    intro next stepped
    rw [stepped] at shape array
    simp only [Option.map_some, Option.some.injEq, Prod.mk.injEq] at shape array
    refine ⟨shape.1, shape.2.1, shape.2.2, (next.store.mapOf 0).pn, ?_⟩
    rw [MapArray.new, ← array.1, ← array.2]
  refine agree_of_meets onePage_fresh ⟨trivial, ?_⟩ ⟨onePage_sound, ?_⟩
  · intro next stepped
    obtain ⟨inorder, lower, upper, pn, map⟩ := later stepped
    refine ⟨⟨⟨0, ?_, ?_, ?_⟩, ?_⟩, fun _ _ => trivial⟩
    · rw [inorder]
      exact List.mem_singleton_self _
    · rw [lower]
      exact Nat.le_add_right _ _
    · rw [upper]
      exact Nat.lt_add_of_pos_right (by decide)
    · rintro number ⟨id, member, holds⟩
      rw [inorder] at member
      rw [List.mem_singleton.mp member, map] at holds
      exact MapArray.not_holds_new _ _ _ _ holds
  · intro next stepped
    obtain ⟨inorder, -, -, pn, map⟩ := later stepped
    refine ⟨fun id member _ _ => ?_, fun _ _ => trivial⟩
    rw [inorder] at member
    rw [List.mem_singleton.mp member, map]
    trivial

/-- An area of one page grows to 129 pages, and a fault on the last one leaves its array. -/
example : Execution.run (step World.plainKernel World.zeroJunk) ⟨onePage, true, []⟩
    [.alloc () (posMapNr * pageSize),
      .fault (World.plainKernel.areaStart + posMapNr * pageSize) 7] = none := rfl

end Faults

end StorageStack.Pos
