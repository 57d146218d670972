import StorageStack.Pos.Areas

/-!
# The layout of the areas

The tree and the list of all areas hold the same areas in address order, and the cache is one of them.
The file states this as an invariant and proves it of the searches, of linking a new area and of
unlinking one; none of them touches anything but the links and the caches.
-/

namespace StorageStack.Pos

open IntervalTree LinkedChain

namespace Store

variable {ν : Type} {kernel : Kernel} {store other third : Store ν} {areas : List VmaId}

/-- The tree and the list hold the areas in address order, each inside the store's range. -/
structure Layout (kernel : Kernel) (store : Store ν) (areas : List VmaId) : Prop where
  chain : Chain store.next store.sb.vmNext areas
  inorder : store.sb.rb.inorder = areas
  spaced : Spaced store.lo store.hi areas
  within : ∀ id ∈ areas, kernel.areaStart ≤ store.lo id ∧ store.hi id ≤ kernel.areaEnd
  fresh : ∀ id ∈ areas, id < store.nextVma
  cached : ∀ id, store.sb.findCache = some id → id ∈ areas

/-- The areas and the cached end of the last hole are aligned to pages. -/
structure Aligned (store : Store ν) (areas : List VmaId) : Prop where
  area : ∀ id ∈ areas, store.lo id % pageSize = 0 ∧ store.hi id % pageSize = 0
  cache : store.sb.freeAreaCache % pageSize = 0

/-- The addresses at which a search for a hole can end. -/
def Known (kernel : Kernel) (store : Store ν) (areas : List VmaId) (addr : Nat) : Prop :=
  addr = kernel.areaStart ∨ addr = store.sb.freeAreaCache ∨ ∃ id ∈ areas, addr = store.hi id

theorem Aligned.known (aligned : Aligned store areas) {addr : Nat}
    (known : Known kernel store areas addr) : addr % pageSize = 0 := by
  rcases known with rfl | rfl | ⟨id, member, rfl⟩
  · exact kernel.start_aligned
  · exact aligned.cache
  · exact (aligned.area id member).2

/-- The stores differ at most in links, tree and caches. -/
structure Relinked (store other : Store ν) : Prop where
  vma : ∀ id, { other.vma id with vmNext := none } = { store.vma id with vmNext := none }
  record : other.record = store.record
  names : other.sb.names = store.sb.names
  nsCount : other.sb.nsCount = store.sb.nsCount
  nextVma : other.nextVma = store.nextVma
  nextRecord : other.nextRecord = store.nextRecord

namespace Relinked

theorem refl (store : Store ν) : Relinked store store := ⟨fun _ => rfl, rfl, rfl, rfl, rfl, rfl⟩

theorem trans (first : Relinked store other) (second : Relinked other third) :
    Relinked store third where
  vma id := (second.vma id).trans (first.vma id)
  record := second.record.trans first.record
  names := second.names.trans first.names
  nsCount := second.nsCount.trans first.nsCount
  nextVma := second.nextVma.trans first.nextVma
  nextRecord := second.nextRecord.trans first.nextRecord

theorem lo (same : Relinked store other) : other.lo = store.lo := by
  funext id
  have eq := congrArg VmArea.vmStart (same.vma id)
  exact eq

theorem hi (same : Relinked store other) : other.hi = store.hi := by
  funext id
  have eq := congrArg VmArea.vmEnd (same.vma id)
  exact eq

theorem nsRecord (same : Relinked store other) (id : VmaId) :
    (other.vma id).nsRecord = (store.vma id).nsRecord := by
  have eq := congrArg VmArea.nsRecord (same.vma id)
  exact eq

theorem mapArray (same : Relinked store other) (id : VmaId) :
    (other.vma id).mapArray = (store.vma id).mapArray := by
  have eq := congrArg VmArea.mapArray (same.vma id)
  exact eq

end Relinked

/-- A change of the superblock's caches relinks nothing. -/
theorem relinked_of_sb (sb : Superblock ν) (names : sb.names = store.sb.names)
    (nsCount : sb.nsCount = store.sb.nsCount) : Relinked store { store with sb := sb } :=
  ⟨fun _ => rfl, rfl, names, nsCount, rfl, rfl⟩

namespace Layout

theorem nodup (layout : Layout kernel store areas) : areas.Nodup := layout.spaced.nodup

/-- The caches may be replaced. -/
theorem withCaches (layout : Layout kernel store areas) {sb : Superblock ν}
    (rb : sb.rb = store.sb.rb) (vmNext : sb.vmNext = store.sb.vmNext)
    (cached : ∀ id, sb.findCache = some id → id ∈ areas) :
    Layout kernel { store with sb := sb } areas where
  chain := vmNext ▸ layout.chain
  inorder := rb ▸ layout.inorder
  spaced := layout.spaced
  within := layout.within
  fresh := layout.fresh
  cached := cached

/-! ## Searching -/

/-- An area that contains the address is the first that ends past it. -/
theorem head_behind (layout : Layout kernel store areas) {id : VmaId} {addr : Nat}
    (member : id ∈ areas) (low : store.lo id ≤ addr) (high : addr < store.hi id) :
    (behind store.hi addr areas).head? = some id := by
  obtain ⟨front, back, rfl⟩ := List.append_of_mem member
  obtain ⟨_, _, apart⟩ := Spaced.append_iff.mp layout.spaced
  have ends : ∀ earlier ∈ front, store.hi earlier ≤ addr := by
    intro earlier inFront
    have order := apart earlier inFront id (List.mem_cons_self ..)
    omega
  rw [behind_append, behind_eq_nil ends, behind_cons_of_lt high]
  rfl

/-- `pos_find_vma` returns the first area that ends past the address, which is then the cached one,
and changes the cache at most. -/
theorem posFindVma_spec (layout : Layout kernel store areas) (addr : Nat) :
    (store.posFindVma addr).1 = (behind store.hi addr areas).head? ∧
      ∃ cache, (store.posFindVma addr).2 =
        { store with sb := { store.sb with findCache := cache } } ∧
        (∀ id, cache = some id → id ∈ areas) ∧
        ∀ id, (behind store.hi addr areas).head? = some id → cache = some id := by
  have found := find_eq store.sb.rb addr (layout.inorder ▸ layout.spaced) none
  rw [layout.inorder, Option.or_none] at found
  have search : ∀ cache, store.sb.findCache = cache → ∀ result : Option VmaId × Store ν,
      ((behind store.hi addr areas).head? = none → result = (none, store)) →
      (∀ id, (behind store.hi addr areas).head? = some id →
        result = (some id, { store with sb := { store.sb with findCache := some id } })) →
      result.1 = (behind store.hi addr areas).head? ∧ ∃ cache, result.2 =
        { store with sb := { store.sb with findCache := cache } } ∧
        (∀ id, cache = some id → id ∈ areas) ∧
        ∀ id, (behind store.hi addr areas).head? = some id → cache = some id := by
    rintro cache cacheEq result ofMiss ofHit
    cases first : (behind store.hi addr areas).head? with
    | none =>
        rw [ofMiss first]
        exact ⟨rfl, _, rfl, layout.cached, fun id hit => absurd hit.symm (Option.some_ne_none id)⟩
    | some id =>
        rw [ofHit id first]
        refine ⟨rfl, _, rfl, fun id' same => ?_, fun _ same => same⟩
        cases same
        exact (mem_behind.mp (List.mem_of_mem_head? first)).1
  rw [posFindVma, found]
  cases cacheEq : store.sb.findCache with
  | none => exact search none cacheEq _ (fun miss => by rw [miss]) fun id hit => by rw [hit]
  | some id =>
      dsimp only
      split
      · next hit =>
          have first := layout.head_behind (layout.cached id cacheEq) hit.2 hit.1
          refine ⟨first.symm, some id, ?_, fun id' same => ?_, fun id' same => first ▸ same⟩
          · rw [← cacheEq]
          · cases same
            exact layout.cached id cacheEq
      · exact search (some id) cacheEq _ (fun miss => by rw [miss]) fun id hit => by rw [hit]

/-- `pos_find_vma_prev` returns the areas on both sides of the address. -/
theorem posFindVmaPrev_eq (layout : Layout kernel store areas) (addr : Nat) :
    store.posFindVmaPrev addr =
      ((behind store.hi addr areas).head?, (before store.hi addr areas).getLast?) := by
  have found : IntervalTree.findPrev store.hi store.next addr store.sb.rb none =
      (before store.hi addr areas).getLast? := findPrev_eq layout.chain layout.spaced store.sb.rb none
    (layout.inorder ▸ layout.spaced) (fun id member => layout.inorder ▸ member)
    (by rw [layout.inorder, Option.or_none])
  have split := layout.spaced.split addr
  rw [posFindVmaPrev, found]
  cases last : (before store.hi addr areas).getLast? with
  | none =>
      rw [List.getLast?_eq_none_iff.mp last, List.nil_append] at split
      rw [layout.chain.start_eq_head, ← split]
  | some prev =>
      obtain ⟨front, eq⟩ := List.getLast?_eq_some_iff.mp last
      rw [eq, List.append_assoc, List.singleton_append] at split
      have chain := layout.chain
      rw [split] at chain
      dsimp only
      rw [chain.next_eq.start_eq_head]

/-- What a search for a hole along the list ends with. -/
theorem scanHoles_spec (layout : Layout kernel store areas) {len limit : Nat} (rest : List VmaId) :
    ∀ front rounds addr prev hole, areas = front ++ rest → rest.length < rounds → (∀ id, prev = some id → id ∈ areas) →
      (∀ id ∈ rest, addr < store.hi id) →
      match store.scanHoles len limit rounds rest.head? addr prev hole with
      | .unending => False
      | .full prev' _ => ∀ id, prev' = some id → id ∈ areas
      | .found addr' prev' _ => (∀ id, prev' = some id → id ∈ areas) ∧ addr ≤ addr' ∧
          addr' ≤ limit - len ∧ (addr' = addr ∨ ∃ id ∈ rest, addr' = store.hi id) ∧
          (∀ id ∈ rest, store.hi id ≤ addr' ∨ addr' + len ≤ store.lo id) ∧
          (prev' = prev ∧ addr' = addr ∨ ∃ id, rest.head? = some id ∧ store.hi id ≤ addr') := by
  induction rest with
  | nil =>
      intro front rounds addr prev hole _ enough inside _
      obtain ⟨rounds, rfl⟩ := Nat.exists_eq_succ_of_ne_zero (show rounds ≠ 0 by omega)
      rw [scanHoles.eq_def]
      dsimp only [List.head?_nil]
      by_cases past : limit - len < addr
      · rw [if_pos past]
        exact inside
      · rw [if_neg past]
        exact ⟨inside, Nat.le_refl _, by omega, Or.inl rfl, by simp, Or.inl ⟨rfl, rfl⟩⟩
  | cons id rest ih =>
      intro front rounds addr prev hole split enough inside past
      obtain ⟨rounds, rfl⟩ := Nat.exists_eq_succ_of_ne_zero (show rounds ≠ 0 by omega)
      have chain := layout.chain
      have spaced := layout.spaced
      rw [split] at chain spaced
      obtain ⟨_, tail, _⟩ := Spaced.append_iff.mp spaced
      obtain ⟨proper, _, later⟩ := Spaced.cons_iff.mp tail
      have member : id ∈ areas := by
        rw [split]
        simp
      rw [scanHoles.eq_def]
      dsimp only [List.head?_cons]
      by_cases full : limit - len < addr
      · rw [if_pos full]
        exact inside
      · rw [if_neg full]
        by_cases room : addr + len ≤ store.lo id
        · rw [if_pos room]
          refine ⟨inside, Nat.le_refl _, by omega, Or.inl rfl, fun other inRest => ?_,
            Or.inl ⟨rfl, rfl⟩⟩
          rcases List.mem_cons.mp inRest with rfl | inRest
          · exact Or.inr room
          · have order := later other inRest
            exact Or.inr (by omega)
        · rw [if_neg room, chain.next_eq.start_eq_head]
          have step := ih (front ++ [id]) rounds (store.hi id) (some id)
            (if addr + hole < store.lo id then store.lo id - addr else hole)
            (by rw [split, List.append_assoc, List.singleton_append])
            (by simp only [List.length_cons] at enough; omega)
            (by rintro other ⟨⟩; exact member) (by
              intro other inRest
              have order := later other inRest
              have proper' := spaced.2 other (by simp [inRest])
              omega)
          have here := past id (List.mem_cons_self ..)
          generalize (if addr + hole < store.lo id then store.lo id - addr else hole) = hole' at *
          cases ends : store.scanHoles len limit rounds rest.head? (store.hi id) (some id) hole' with
          | unending =>
              rw [ends] at step
              exact step
          | full prev' hole' =>
              rw [ends] at step
              exact step
          | found addr' prev' hole' =>
              rw [ends] at step
              obtain ⟨inside', above, fits, known, free, _⟩ := step
              have known' : addr' = addr ∨ ∃ other ∈ id :: rest, addr' = store.hi other := by
                rcases known with rfl | ⟨other, inRest, rfl⟩
                · exact Or.inr ⟨id, List.mem_cons_self .., rfl⟩
                · exact Or.inr ⟨other, List.mem_cons_of_mem _ inRest, rfl⟩
              refine ⟨inside', by omega, fits, known', fun other inRest => ?_,
                Or.inr ⟨id, rfl, above⟩⟩
              rcases List.mem_cons.mp inRest with rfl | inRest
              · exact Or.inl above
              · exact free other inRest

theorem length_le (layout : Layout kernel store areas) : areas.length ≤ store.nextVma := by
  have sub : areas ⊆ List.range store.nextVma := fun id member =>
    List.mem_range.mpr (layout.fresh id member)
  have le := (layout.nodup.subperm sub).length_le
  rwa [List.length_range] at le

/-- What a pass over the list that starts with `pos_find_vma` ends with. -/
theorem findHole_spec (layout : Layout kernel store areas) (addr : Nat) {prev : Option VmaId}
    (inside : ∀ id, prev = some id → id ∈ areas) (len limit hole : Nat) :
    ∃ vma cache, store.posFindVma addr =
        (vma, { store with sb := { store.sb with findCache := cache } }) ∧
      Layout kernel { store with sb := { store.sb with findCache := cache } } areas ∧
      match Store.scanHoles { store with sb := { store.sb with findCache := cache } } len limit
        (store.nextVma + 1) vma addr prev hole with
      | .unending => False
      | .full prev' _ => ∀ id, prev' = some id → id ∈ areas
      | .found addr' prev' _ => (∀ id, prev' = some id → id ∈ areas) ∧ addr ≤ addr' ∧
          addr' ≤ limit - len ∧ (addr' = addr ∨ ∃ id ∈ areas, addr' = store.hi id) ∧
          (∀ id ∈ areas, store.hi id ≤ addr' ∨ addr' + len ≤ store.lo id) ∧
          (prev' = prev ∧ addr' = addr ∨ ∃ id, cache = some id ∧ store.hi id ≤ addr') := by
  obtain ⟨first, cache, second, cached, hit⟩ := layout.posFindVma_spec addr
  have layout' : Layout kernel { store with sb := { store.sb with findCache := cache } } areas :=
    layout.withCaches rfl rfl cached
  refine ⟨(behind store.hi addr areas).head?, cache, Prod.ext first second, layout', ?_⟩
  have split := layout.spaced.split addr
  have short : (behind store.hi addr areas).length < store.nextVma + 1 := by
    have part : (behind store.hi addr areas).length ≤ areas.length := List.length_filter_le ..
    have le := layout.length_le
    omega
  have scan := @scanHoles_spec _ _ _ _ layout' len limit (behind store.hi addr areas)
    (before store.hi addr areas) (store.nextVma + 1) addr prev hole split short inside
    fun id member => (mem_behind.mp member).2
  cases ends : Store.scanHoles { store with sb := { store.sb with findCache := cache } } len limit
      (store.nextVma + 1) (behind store.hi addr areas).head? addr prev hole with
  | unending =>
      rw [ends] at scan
      exact scan
  | full prev' hole' =>
      rw [ends] at scan
      exact scan
  | found addr' prev' hole' =>
      rw [ends] at scan
      obtain ⟨inside', above, fits, known, free, passed⟩ := scan
      have known' : addr' = addr ∨ ∃ id ∈ areas, addr' = store.hi id := by
        refine known.imp_right fun ⟨id, member, ends⟩ => ⟨id, ?_, ends⟩
        exact (mem_behind.mp member).1
      refine ⟨inside', above, fits, known', fun id member => ?_,
        passed.imp_right fun ⟨id, first, ends⟩ => ⟨id, hit id first, ends⟩⟩
      rw [split] at member
      rcases List.mem_append.mp member with early | late
      · have ends' := (mem_before.mp early).2
        exact Or.inl (by omega)
      · exact free id late

/-- `pos_get_unmapped_area` returns a hole of the length, or `POS_ERROR`; the area it names is an area,
and only the caches change.  If the named area ends at the hole, the cached area is not behind the
hole. -/
theorem posGetUnmappedArea_spec (layout : Layout kernel store areas) (len : Nat) :
    ∃ addr prev sb, store.posGetUnmappedArea kernel len = some (addr, prev, { store with sb := sb }) ∧
      Layout kernel { store with sb := sb } areas ∧ Relinked store { store with sb := sb } ∧
      (∀ id, prev = some id → id ∈ areas) ∧
      (addr = posError ∧ Known kernel store areas sb.freeAreaCache ∨
        kernel.areaStart ≤ addr ∧ addr + len ≤ kernel.areaEnd ∧ Known kernel store areas addr ∧
        sb.freeAreaCache = addr + len ∧
        (∀ id ∈ areas, store.hi id ≤ addr ∨ addr + len ≤ store.lo id) ∧
        ∀ id, prev = some id → store.hi id = addr →
          ∃ hit, sb.findCache = some hit ∧ store.hi hit ≤ addr) := by
  rw [posGetUnmappedArea]
  dsimp only
  by_cases long : kernel.areaEnd < len
  · rw [if_pos long]
    exact ⟨posError, none, store.sb, rfl, layout, relinked_of_sb _ rfl rfl, by simp,
      Or.inl ⟨rfl, Or.inr (Or.inl rfl)⟩⟩
  · rw [if_neg long]
    obtain ⟨hole, free, eq, freeKnown⟩ : ∃ hole free,
        (if len ≤ store.sb.cachedHoleSize then
          { store with sb :=
            { store.sb with cachedHoleSize := 0, freeAreaCache := kernel.areaStart } }
        else store) = { store with sb :=
            { store.sb with cachedHoleSize := hole, freeAreaCache := free } } ∧
          Known kernel store areas free := by
      split
      · exact ⟨_, _, rfl, Or.inl rfl⟩
      · exact ⟨_, _, rfl, Or.inr (Or.inl rfl)⟩
    rw [eq]
    dsimp only
    have layout₁ : Layout kernel { store with sb :=
        { store.sb with cachedHoleSize := hole, freeAreaCache := free } } areas :=
      layout.withCaches rfl rfl layout.cached
    have startKnown : Known kernel store areas (max free kernel.areaStart) := by
      rcases le_total free kernel.areaStart with le | le
      · rw [max_eq_right le]
        exact Or.inl rfl
      · rw [max_eq_left le]
        exact freeKnown
    obtain ⟨vma, cache, findEq, layout₂, scan⟩ := layout₁.findHole_spec
      (max free kernel.areaStart) (show ∀ id, (none : Option VmaId) = some id → id ∈ areas by simp)
      len kernel.areaEnd hole
    rw [findEq]
    dsimp only at scan ⊢
    have holeEnd : ∀ {addr}, addr ≤ kernel.areaEnd - len → addr + len ≤ kernel.areaEnd := by
      intro addr fits
      omega
    split at scan
    · cases scan
    · next prev' hole' ends =>
        rw [ends]
        dsimp only
        by_cases again : max free kernel.areaStart ≠ kernel.areaStart
        · rw [if_pos again]
          obtain ⟨vma', cache', findEq', layout₃, scan'⟩ := layout₂.findHole_spec
            kernel.areaStart scan len kernel.areaEnd 0
          rw [findEq']
          dsimp only at scan' ⊢
          split at scan'
          · cases scan'
          · next prev'' hole'' ends' =>
              rw [ends']
              exact ⟨posError, _, _, rfl, layout₃.withCaches rfl rfl layout₃.cached,
                relinked_of_sb _ rfl rfl, scan', Or.inl ⟨rfl, freeKnown⟩⟩
          · next addr prev'' hole'' ends' =>
              rw [ends']
              obtain ⟨inside, above, fits, known, holeFree, passed⟩ := scan'
              have notLater : ∀ id, prev'' = some id → store.hi id = addr →
                  ∃ hit, cache' = some hit ∧ store.hi hit ≤ addr := by
                intro id named ends
                rcases passed with ⟨rfl, rfl⟩ | hit
                -- the area left over from the first pass does not end at the first address
                · have within := layout.within id (scan id named)
                  have proper := layout.spaced.2 id (scan id named)
                  omega
                · exact hit
              exact ⟨addr, _, _, rfl, layout₃.withCaches rfl rfl layout₃.cached,
                relinked_of_sb _ rfl rfl, inside, Or.inr ⟨above, holeEnd fits,
                  known.imp id Or.inr, rfl, holeFree, notLater⟩⟩
        · rw [if_neg again]
          exact ⟨posError, _, _, rfl, layout₂.withCaches rfl rfl layout₂.cached,
            relinked_of_sb _ rfl rfl, scan, Or.inl ⟨rfl, freeKnown⟩⟩
    · next addr prev' hole' ends =>
        rw [ends]
        obtain ⟨inside, above, fits, known, holeFree, passed⟩ := scan
        have notLater : ∀ id, prev' = some id → store.hi id = addr →
            ∃ hit, cache = some hit ∧ store.hi hit ≤ addr := by
          intro id named ends
          rcases passed with ⟨rfl, _⟩ | hit
          · cases named
          · exact hit
        have known' : Known kernel store areas addr := by
          rcases known with rfl | hit
          · exact startKnown
          · exact Or.inr (Or.inr hit)
        exact ⟨addr, _, _, rfl, layout₂.withCaches rfl rfl layout₂.cached,
          relinked_of_sb _ rfl rfl, inside, Or.inr ⟨le_trans (le_max_right _ _) above,
            holeEnd fits, known', rfl, holeFree, notLater⟩⟩

end Layout

/-! ## Linking and unlinking -/

theorem next_setVma (id : VmaId) (change : VmArea → VmArea) :
    (store.setVma id change).next =
      Function.update store.next id (change (store.vma id)).vmNext := by
  funext other
  by_cases same : other = id
  · subst same
    simp [next, setVma]
  · simp [next, setVma, same]

theorem lo_setVma (id : VmaId) (change : VmArea → VmArea) :
    (store.setVma id change).lo =
      Function.update store.lo id (change (store.vma id)).vmStart := by
  funext other
  by_cases same : other = id
  · subst same
    simp [lo, setVma]
  · simp [lo, setVma, same]

theorem hi_setVma (id : VmaId) (change : VmArea → VmArea) :
    (store.setVma id change).hi =
      Function.update store.hi id (change (store.vma id)).vmEnd := by
  funext other
  by_cases same : other = id
  · subst same
    simp [hi, setVma]
  · simp [hi, setVma, same]

theorem next_posVmaLinkList_none (id : VmaId) (parent : Option VmaId) :
    (store.posVmaLinkList id none parent).next = Function.update store.next id parent := by
  rw [posVmaLinkList, next_setVma]
  rfl

theorem next_posVmaLinkList_some (id prev : VmaId) (parent : Option VmaId) :
    (store.posVmaLinkList id (some prev) parent).next =
      Function.update (Function.update store.next id (store.next prev)) prev (some id) := by
  rw [posVmaLinkList, next_setVma, next_setVma]

/-- A change of the link of an area relinks. -/
theorem relinked_setVma (id : VmaId) (link : Option VmaId) :
    Relinked store (store.setVma id fun area => { area with vmNext := link }) where
  vma other := by
    by_cases same : other = id
    · subst same
      simp [setVma]
    · simp [setVma, same]
  record := rfl
  names := rfl
  nsCount := rfl
  nextVma := rfl
  nextRecord := rfl

theorem relinked_posVmaLinkList (id : VmaId) (prev parent : Option VmaId) :
    Relinked store (store.posVmaLinkList id prev parent) := by
  cases prev with
  | none =>
      exact (relinked_of_sb { store.sb with vmNext := some id } rfl rfl).trans
        (relinked_setVma id parent)
  | some prev => exact (relinked_setVma id (store.next prev)).trans (relinked_setVma prev (some id))

/-- `pos_insert_vm_area` relinks, whether it links the area or not. -/
theorem relinked_posInsertVmArea (id : VmaId) :
    Relinked store (store.posInsertVmArea kernel id) := by
  rw [posInsertVmArea]
  dsimp only
  split
  · split
    · exact Relinked.refl store
    · exact (relinked_posVmaLinkList ..).trans (relinked_of_sb _ rfl rfl)
  · exact (relinked_posVmaLinkList ..).trans (relinked_of_sb _ rfl rfl)

namespace Layout

/-- The layout after a change of links, tree and caches. -/
theorem relinked (layout : Layout kernel store areas) (same : Relinked store other)
    {areas' : List VmaId} (chain : Chain other.next other.sb.vmNext areas')
    (inorder : other.sb.rb.inorder = areas') (spaced : Spaced store.lo store.hi areas')
    (members : ∀ id ∈ areas', id ∈ areas ∨
      (kernel.areaStart ≤ store.lo id ∧ store.hi id ≤ kernel.areaEnd ∧ id < store.nextVma))
    (cached : ∀ id, other.sb.findCache = some id → id ∈ areas') : Layout kernel other areas' where
  chain := chain
  inorder := inorder
  spaced := by
    rw [same.lo, same.hi]
    exact spaced
  within id member := by
    rw [same.lo, same.hi]
    rcases members id member with old | new
    · exact layout.within id old
    · exact ⟨new.1, new.2.1⟩
  fresh id member := by
    rw [same.nextVma]
    rcases members id member with old | new
    · exact layout.fresh id old
    · exact new.2.2
  cached := cached

/-- An item that starts in a hole goes between the areas before and behind it. -/
theorem spaced_insert (layout : Layout kernel store areas) {id : VmaId}
    (proper : store.lo id < store.hi id)
    (free : ∀ other ∈ areas, store.hi other ≤ store.lo id ∨ store.hi id ≤ store.lo other) :
    Spaced store.lo store.hi
      (before store.hi (store.lo id) areas ++ id :: behind store.hi (store.lo id) areas) := by
  have split := layout.spaced.split (store.lo id)
  have spaced := layout.spaced
  rw [split] at spaced
  obtain ⟨front, back, apart⟩ := Spaced.append_iff.mp spaced
  have later : ∀ other ∈ behind store.hi (store.lo id) areas, store.hi id ≤ store.lo other := by
    intro other member
    obtain ⟨inside, past⟩ := mem_behind.mp member
    have hole := free other inside
    omega
  refine Spaced.append_iff.mpr ⟨front, Spaced.cons_iff.mpr ⟨proper, back, later⟩, ?_⟩
  intro first inFront second member
  rcases List.mem_cons.mp member with rfl | inBack
  · exact (mem_before.mp inFront).2
  · exact apart first inFront second inBack

/-- `pos_insert_vm_area` links a new area into the tree and the list. -/
theorem posInsertVmArea_spec (layout : Layout kernel store areas) {id : VmaId} (new : id ∉ areas)
    (allocated : id < store.nextVma) (proper : store.lo id < store.hi id)
    (low : kernel.areaStart ≤ store.lo id) (high : store.hi id ≤ kernel.areaEnd)
    (free : ∀ other ∈ areas, store.hi other ≤ store.lo id ∨ store.hi id ≤ store.lo other) :
    Layout kernel (store.posInsertVmArea kernel id)
        (before store.hi (store.lo id) areas ++ id :: behind store.hi (store.lo id) areas) ∧
      Relinked store (store.posInsertVmArea kernel id) ∧
      (store.posInsertVmArea kernel id).sb.freeAreaCache = store.sb.freeAreaCache := by
  have apart : ∀ other ∈ store.sb.rb.inorder, store.hi other ≤ store.lo id ∨
      store.lo id < store.lo other := by
    intro other member
    rw [layout.inorder] at member
    have hole := free other member
    omega
  have treeSpaced : Spaced store.lo store.hi store.sb.rb.inorder := layout.inorder ▸ layout.spaced
  obtain ⟨vma, prev⟩ := prepare_eq store.sb.rb (store.lo id) treeSpaced apart ⟨none, none, none⟩
  rw [layout.inorder, Option.or_none] at vma prev
  have linked := inorder_link store.sb.rb (store.lo id) id treeSpaced apart
  rw [layout.inorder] at linked
  have split := layout.spaced.split (store.lo id)
  -- nothing overlaps the new area, so it is linked
  have shape : ∀ parent, (prepare store.lo store.hi (store.lo id) store.sb.rb
      ⟨none, none, none⟩).parent = parent → ∃ total count, store.posInsertVmArea kernel id =
        { store.posVmaLinkList id
            (prepare store.lo store.hi (store.lo id) store.sb.rb ⟨none, none, none⟩).prev parent with
          sb := { (store.posVmaLinkList id
            (prepare store.lo store.hi (store.lo id) store.sb.rb ⟨none, none, none⟩).prev parent).sb with
            rb := kernel.rbInsertColor (link store.lo store.hi (store.lo id) id store.sb.rb)
            totalVm := total
            vmCount := count } } := by
    rintro parent rfl
    rw [posInsertVmArea]
    dsimp only
    rw [vma]
    cases first : (behind store.hi (store.lo id) areas).head? with
    | none => exact ⟨_, _, rfl⟩
    | some other =>
        have member := mem_behind.mp (List.mem_of_mem_head? first)
        have hole := free other member.1
        dsimp only
        rw [if_neg (by omega)]
        exact ⟨_, _, rfl⟩
  have inorder : (kernel.rbInsertColor (link store.lo store.hi (store.lo id) id
      store.sb.rb)).inorder =
      before store.hi (store.lo id) areas ++ id :: behind store.hi (store.lo id) areas := by
    rw [kernel.inorder_rbInsertColor, linked]
  have members : ∀ other ∈ before store.hi (store.lo id) areas ++
      id :: behind store.hi (store.lo id) areas, other ∈ areas ∨ (kernel.areaStart ≤ store.lo other ∧
        store.hi other ≤ kernel.areaEnd ∧ other < store.nextVma) := by
    intro other member
    rcases List.mem_append.mp member with inFront | member
    · exact Or.inl (mem_before.mp inFront).1
    · rcases List.mem_cons.mp member with rfl | inBack
      · exact Or.inr ⟨low, high, allocated⟩
      · exact Or.inl (mem_behind.mp inBack).1
  have cached : ∀ other, store.sb.findCache = some other → other ∈
      before store.hi (store.lo id) areas ++ id :: behind store.hi (store.lo id) areas := by
    intro other hit
    have member := layout.cached other hit
    rw [split] at member
    rcases List.mem_append.mp member with inFront | inBack
    · exact List.mem_append_left _ inFront
    · exact List.mem_append_right _ (List.mem_cons_of_mem _ inBack)
  cases last : (before store.hi (store.lo id) areas).getLast? with
  | none =>
      have nil := List.getLast?_eq_none_iff.mp last
      rw [nil, List.nil_append] at split
      have past : ∀ other ∈ store.sb.rb.inorder,
          store.lo id < store.hi other ∧ store.lo id < store.lo other := by
        intro other member
        rw [layout.inorder, split] at member
        obtain ⟨inside, past⟩ := mem_behind.mp member
        have hole := free other inside
        exact ⟨past, by omega⟩
      have parent := prepare_parent store.sb.rb (store.lo id) past ⟨none, none, none⟩
      rw [layout.inorder, Option.or_none] at parent
      obtain ⟨total, count, eq⟩ := shape _ parent
      rw [prev, last] at eq
      rw [eq]
      have same : Relinked store { store.posVmaLinkList id none areas.head? with
          sb := { (store.posVmaLinkList id none areas.head?).sb with
            rb := kernel.rbInsertColor (link store.lo store.hi (store.lo id) id store.sb.rb)
            totalVm := total
            vmCount := count } } :=
        ((relinked_of_sb { store.sb with vmNext := some id } rfl rfl).trans
          (relinked_setVma id areas.head?)).trans (relinked_of_sb _ rfl rfl)
      refine ⟨layout.relinked same ?_ inorder (layout.spaced_insert proper free) members cached, same,
        rfl⟩
      have chain := layout.chain.insertFirst new
      rw [layout.chain.start_eq_head] at chain
      rw [nil, List.nil_append, ← split]
      have links : (store.posVmaLinkList id none areas.head?).next =
          Function.update store.next id areas.head? := next_posVmaLinkList_none id _
      exact links ▸ chain
  | some before' =>
      obtain ⟨front, eq⟩ := List.getLast?_eq_some_iff.mp last
      obtain ⟨total, count, shape⟩ := shape _ rfl
      rw [prev, last] at shape
      rw [shape]
      generalize (prepare store.lo store.hi (store.lo id) store.sb.rb ⟨none, none, none⟩).parent =
        parent
      have same : Relinked store { store.posVmaLinkList id (some before') parent with
          sb := { (store.posVmaLinkList id (some before') parent).sb with
            rb := kernel.rbInsertColor (link store.lo store.hi (store.lo id) id store.sb.rb)
            totalVm := total
            vmCount := count } } :=
        ((relinked_setVma id (store.next before')).trans
          (relinked_setVma before' (some id))).trans (relinked_of_sb _ rfl rfl)
      refine ⟨layout.relinked same ?_ inorder (layout.spaced_insert proper free) members cached, same,
        rfl⟩
      have nodup := layout.nodup
      have chain := layout.chain
      rw [split, eq, List.append_assoc, List.singleton_append] at chain nodup new
      have inserted := chain.insertAfter nodup new
      rw [eq, List.append_assoc, List.singleton_append]
      have links : (store.posVmaLinkList id (some before') parent).next = Function.update
          (Function.update store.next id (store.next before')) before' (some id) :=
        next_posVmaLinkList_some id before' parent
      exact links ▸ inserted

/-- `pos_unmap_area` changes the caches at most. -/
theorem posUnmapArea_eq (addr : Nat) : ∃ free hole, store.posUnmapArea kernel addr =
    { store with sb := { store.sb with freeAreaCache := free, cachedHoleSize := hole } } ∧
      (free = addr ∨ free = store.sb.freeAreaCache) := by
  rw [posUnmapArea]
  split
  · exact ⟨addr, 2 ^ 64 - 1, rfl, Or.inl rfl⟩
  · exact ⟨_, _, rfl, Or.inr rfl⟩

/-- `pos_remove_vm_area` unlinks an area from the tree and the list. -/
theorem posRemoveVmArea_spec {front back : List VmaId} {id : VmaId}
    (layout : Layout kernel store (front ++ id :: back)) :
    Layout kernel (store.posRemoveVmArea kernel id front.getLast?) (front ++ back) ∧
      Relinked store (store.posRemoveVmArea kernel id front.getLast?) ∧
      Known kernel store (front ++ id :: back)
        (store.posRemoveVmArea kernel id front.getLast?).sb.freeAreaCache := by
  have nodup := layout.nodup
  have notFront : id ∉ front := fun member =>
    (List.nodup_append.mp nodup).2.2 id member id (List.mem_cons_self ..) rfl
  have inorder : (kernel.rbErase id store.sb.rb).inorder = front ++ back := by
    rw [kernel.inorder_rbErase, layout.inorder, List.erase_append_right _ notFront,
      List.erase_cons_head]
  have sub : (front ++ back).Sublist (front ++ id :: back) :=
    List.Sublist.append_left (List.sublist_cons_self ..) front
  have spaced := layout.spaced.sublist sub
  have members : ∀ other ∈ front ++ back, other ∈ front ++ id :: back ∨
      (kernel.areaStart ≤ store.lo other ∧ store.hi other ≤ kernel.areaEnd ∧
        other < store.nextVma) :=
    fun other member => Or.inl (sub.subset member)
  cases last : front.getLast? with
  | none =>
      obtain rfl := List.getLast?_eq_none_iff.mp last
      generalize unlinkedEq : Store.setVma { store with sb := { store.sb with
        rb := kernel.rbErase id store.sb.rb, vmNext := store.next id } } id
        (fun area => { area with vmNext := none }) = unlinked
      have same : Relinked store unlinked := unlinkedEq ▸
        (relinked_of_sb { store.sb with
          rb := kernel.rbErase id store.sb.rb, vmNext := store.next id } rfl rfl).trans
          (relinked_setVma id none)
      have links : unlinked.next = Function.update store.next id none := by
        rw [← unlinkedEq, next_setVma]
        rfl
      have tree : unlinked.sb.rb.inorder = back := by
        rw [← unlinkedEq]
        exact inorder
      have head : unlinked.sb.vmNext = store.next id := by
        rw [← unlinkedEq]
        rfl
      obtain ⟨free, hole, eq, origin⟩ := @posUnmapArea_eq _ kernel unlinked kernel.areaStart
      have known : Known kernel store ([] ++ id :: back) free := by
        rcases origin with rfl | rfl
        · exact Or.inl rfl
        · rw [← unlinkedEq]
          exact Or.inr (Or.inl rfl)
      have shape : store.posRemoveVmArea kernel id none = { unlinked with sb := { unlinked.sb with
          freeAreaCache := free, cachedHoleSize := hole, findCache := none
          totalVm := unlinked.sb.totalVm - (unlinked.vma id).nrPages
          vmCount := unlinked.sb.vmCount - 1 } } := by
        have last : store.posRemoveVmArea kernel id none =
            { unlinked.posUnmapArea kernel kernel.areaStart with
              sb := { (unlinked.posUnmapArea kernel kernel.areaStart).sb with
                findCache := none
                totalVm := (unlinked.posUnmapArea kernel kernel.areaStart).sb.totalVm -
                  ((unlinked.posUnmapArea kernel kernel.areaStart).vma id).nrPages
                vmCount := (unlinked.posUnmapArea kernel kernel.areaStart).sb.vmCount - 1 } } := by
          rw [← unlinkedEq]
          rfl
        rw [last, eq]
      have same' : Relinked store { unlinked with sb := { unlinked.sb with
          freeAreaCache := free, cachedHoleSize := hole, findCache := none
          totalVm := unlinked.sb.totalVm - (unlinked.vma id).nrPages
          vmCount := unlinked.sb.vmCount - 1 } } :=
        same.trans (relinked_of_sb _ rfl rfl)
      rw [shape]
      refine ⟨layout.relinked same' ?_ tree spaced members (fun _ hit => nomatch hit), same',
        known⟩
      have removed := layout.chain.removeFirst nodup
      rw [← links, ← head] at removed
      exact removed
  | some prev =>
      obtain ⟨first, rfl⟩ := List.getLast?_eq_some_iff.mp last
      generalize unlinkedEq : Store.setVma (Store.setVma { store with sb := { store.sb with
        rb := kernel.rbErase id store.sb.rb } } prev fun area =>
          { area with vmNext := store.next id }) id
        (fun area => { area with vmNext := none }) = unlinked
      have same : Relinked store unlinked := unlinkedEq ▸
        ((relinked_of_sb { store.sb with rb := kernel.rbErase id store.sb.rb } rfl rfl).trans
          (relinked_setVma prev (store.next id))).trans (relinked_setVma id none)
      have links : unlinked.next =
          Function.update (Function.update store.next prev (store.next id)) id none := by
        rw [← unlinkedEq, next_setVma, next_setVma]
        rfl
      have tree : unlinked.sb.rb.inorder = first ++ [prev] ++ back := by
        rw [← unlinkedEq]
        exact inorder
      have head : unlinked.sb.vmNext = store.sb.vmNext := by
        rw [← unlinkedEq]
        rfl
      obtain ⟨free, hole, eq, origin⟩ := @posUnmapArea_eq _ kernel unlinked (unlinked.hi prev)
      have known : Known kernel store (first ++ [prev] ++ id :: back) free := by
        rcases origin with rfl | rfl
        · rw [same.hi]
          exact Or.inr (Or.inr ⟨prev, by simp, rfl⟩)
        · rw [← unlinkedEq]
          exact Or.inr (Or.inl rfl)
      have shape : store.posRemoveVmArea kernel id (some prev) =
          { unlinked with sb := { unlinked.sb with
            freeAreaCache := free, cachedHoleSize := hole, findCache := none
            totalVm := unlinked.sb.totalVm - (unlinked.vma id).nrPages
            vmCount := unlinked.sb.vmCount - 1 } } := by
        have last : store.posRemoveVmArea kernel id (some prev) =
            { unlinked.posUnmapArea kernel (unlinked.hi prev) with
              sb := { (unlinked.posUnmapArea kernel (unlinked.hi prev)).sb with
                findCache := none
                totalVm := (unlinked.posUnmapArea kernel (unlinked.hi prev)).sb.totalVm -
                  ((unlinked.posUnmapArea kernel (unlinked.hi prev)).vma id).nrPages
                vmCount := (unlinked.posUnmapArea kernel (unlinked.hi prev)).sb.vmCount - 1 } } := by
          rw [← unlinkedEq]
          rfl
        rw [last, eq]
      have same' : Relinked store { unlinked with sb := { unlinked.sb with
          freeAreaCache := free, cachedHoleSize := hole, findCache := none
          totalVm := unlinked.sb.totalVm - (unlinked.vma id).nrPages
          vmCount := unlinked.sb.vmCount - 1 } } :=
        same.trans (relinked_of_sb _ rfl rfl)
      rw [shape]
      refine ⟨layout.relinked same' ?_ tree spaced members (fun _ hit => nomatch hit), same',
        known⟩
      have chain := layout.chain
      rw [List.append_assoc, List.singleton_append] at chain nodup
      have removed := chain.removeAfter nodup
      rw [← links, ← head] at removed
      rw [List.append_assoc, List.singleton_append]
      exact removed

end Layout

end Store

end StorageStack.Pos
