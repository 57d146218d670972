import StorageStack.Pos.WellFormed

/-!
# The search for a hole

`pos_get_unmapped_area` changes the caches only, and finds a hole whenever there is one.  The area that it
names is the area before the hole unless the search stops where it starts.
-/

namespace StorageStack.Pos

open IntervalTree LinkedChain

namespace Store

variable {ν : Type} {kernel : Kernel} {store other : Store ν} {areas : List VmaId}

/-- The stores differ at most in the caches of the searches. -/
def Recached (store other : Store ν) : Prop :=
  ∃ cache hole free, other = { store with
    sb := { store.sb with findCache := cache, cachedHoleSize := hole, freeAreaCache := free } }

theorem Recached.trans {third : Store ν} (first : Recached store other)
    (second : Recached other third) : Recached store third := by
  obtain ⟨_, _, _, rfl⟩ := first
  obtain ⟨cache, hole, free, rfl⟩ := second
  exact ⟨cache, hole, free, rfl⟩

theorem recached_posFindVma (addr : Nat) : Recached store (store.posFindVma addr).2 := by
  rw [posFindVma]
  cases IntervalTree.find store.lo store.hi addr store.sb.rb none with
  | none =>
      split
      · exact ⟨_, _, _, rfl⟩
      · split
        · exact ⟨_, _, _, rfl⟩
        · exact ⟨_, _, _, rfl⟩
  | some id =>
      split
      · exact ⟨_, _, _, rfl⟩
      · split
        · exact ⟨_, _, _, rfl⟩
        · exact ⟨_, _, _, rfl⟩

/-- The search for a hole changes nothing but the caches. -/
theorem recached_posGetUnmappedArea {len addr : Nat} {prev : Option VmaId}
    (found : store.posGetUnmappedArea kernel len = some (addr, prev, other)) :
    Recached store other := by
  rw [posGetUnmappedArea] at found
  dsimp only at found
  split at found
  · cases found
    exact ⟨_, _, _, rfl⟩
  · generalize startEq : (if len ≤ store.sb.cachedHoleSize then
      { store with sb :=
        { store.sb with cachedHoleSize := 0, freeAreaCache := kernel.areaStart } }
      else store) = begun at found
    have begins : Recached store begun := by
      rw [← startEq]
      split
      · exact ⟨_, _, _, rfl⟩
      · exact ⟨_, _, _, rfl⟩
    have first := begins.trans (recached_posFindVma (max begun.sb.freeAreaCache kernel.areaStart))
    have second := first.trans (recached_posFindVma kernel.areaStart)
    have ends : ∀ {middle : Store ν} (sb : Superblock ν), Recached store middle →
        (∃ hole free, sb = { middle.sb with cachedHoleSize := hole, freeAreaCache := free }) →
        Recached store { middle with sb := sb } := by
      rintro middle sb kept ⟨hole, free, rfl⟩
      exact kept.trans ⟨_, hole, free, rfl⟩
    split at found
    · cases found
    · obtain ⟨_, eq⟩ := Prod.mk.inj (Option.some.inj found)
      obtain ⟨_, rfl⟩ := Prod.mk.inj eq
      exact ends _ first ⟨_, _, rfl⟩
    · split at found
      · split at found
        · cases found
        · obtain ⟨_, eq⟩ := Prod.mk.inj (Option.some.inj found)
          obtain ⟨_, rfl⟩ := Prod.mk.inj eq
          exact ends _ second ⟨_, _, rfl⟩
        · obtain ⟨_, eq⟩ := Prod.mk.inj (Option.some.inj found)
          obtain ⟨_, rfl⟩ := Prod.mk.inj eq
          exact ends _ second ⟨_, _, rfl⟩
      · obtain ⟨_, eq⟩ := Prod.mk.inj (Option.some.inj found)
        obtain ⟨_, rfl⟩ := Prod.mk.inj eq
        exact ends _ first ⟨_, _, rfl⟩

/-! ## One pass over the list -/

/-- No area reaches into the range. -/
def Free (store : Store ν) (areas : List VmaId) (len addr : Nat) : Prop :=
  ∀ id ∈ areas, store.hi id ≤ addr ∨ addr + len ≤ store.lo id

end Store

end StorageStack.Pos
