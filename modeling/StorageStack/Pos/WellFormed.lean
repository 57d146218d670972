import StorageStack.Execution
import StorageStack.Pos.Processes

/-!
# The address map of the store

The tree, the list, the lists of the objects, the cache and the map arrays describe the same areas.  The
calls keep this as long as every object that is created has whole pages that one array can map, every
search finds a hole, merged areas fit the levels of the array they keep, and segments are freed at the
end of an area, without the prime segment.
-/

namespace StorageStack.Pos

open IntervalTree LinkedChain Store

variable {ν : Type} {kernel : Kernel} {junk : Junk} {store : Store ν} {areas : List VmaId}

/-- The structures of the store describe the same areas. -/
structure WellFormed (kernel : Kernel) (store : Store ν) : Prop where
  linked : Chain store.next store.sb.vmNext store.sb.rb.inorder
  ordered : Spaced store.lo store.hi store.sb.rb.inorder
  within : ∀ id ∈ store.sb.rb.inorder,
    kernel.areaStart ≤ store.lo id ∧ store.hi id ≤ kernel.areaEnd
  aligned : ∀ id ∈ store.sb.rb.inorder, store.lo id % pageSize = 0 ∧ store.hi id % pageSize = 0
  owned : ∀ id ∈ store.sb.rb.inorder, ∃ entry ∈ store.sb.names, entry.2 = store.owner id
  listed : ∀ entry ∈ store.sb.names, (store.record entry.2).vmList =
    store.sb.rb.inorder.filter fun id => store.owner id = entry.2
  cached : ∀ id, store.sb.findCache = some id → id ∈ store.sb.rb.inorder
  mapped : ∀ id ∈ store.sb.rb.inorder, (store.mapOf id).pn = store.lo id / pageSize ∧
    (store.hi id - store.lo id) / pageSize ≤ posMapNr ^ (store.mapOf id).level
  prime : ∀ entry ∈ store.sb.names, ∃ id ∈ store.sb.rb.inorder, store.owner id = entry.2 ∧
    store.lo id ≤ (store.record entry.2).primeSeg ∧ (store.record entry.2).primeSeg < store.hi id

/-- What the calls keep. -/
structure Sound (kernel : Kernel) (store : Store ν) (areas : List VmaId) : Prop where
  layout : Layout kernel store areas
  catalogued : Catalogued store areas
  aligned : Aligned store areas
  untouched : Untouched store areas
  prime : ∀ entry ∈ store.sb.names, Covers store areas entry.2 (store.record entry.2).primeSeg

theorem Sound.wellFormed (sound : Sound kernel store areas) : WellFormed kernel store := by
  obtain ⟨layout, catalogued, aligned, untouched, prime⟩ := sound
  have inorder := layout.inorder
  subst inorder
  exact {
    linked := layout.chain
    ordered := layout.spaced
    within := layout.within
    aligned := aligned.area
    owned := catalogued.owned
    listed := catalogued.listed
    cached := layout.cached
    mapped := fun id member => ⟨(untouched id member).pn, (untouched id member).pages⟩
    prime := prime }

namespace World

variable {world final : World ν}

theorem sound_start (kernel : Kernel) (cred : Pid → Cred) (record : RecordId → NsRecord)
    (vma : VmaId → VmArea) : Sound kernel (start kernel cred record vma : World ν).store [] where
  layout := ⟨rfl, rfl, ⟨List.Pairwise.nil, fun _ member => nomatch member⟩,
    (fun _ member => nomatch member), (fun _ member => nomatch member), fun _ hit => nomatch hit⟩
  catalogued := ⟨List.nodup_nil, List.nodup_nil, (fun _ member => nomatch member), rfl,
    (fun _ member => nomatch member), fun _ member => nomatch member⟩
  aligned := ⟨(fun _ member => nomatch member), kernel.start_aligned⟩
  untouched _ member := nomatch member
  prime _ member := nomatch member

variable [DecidableEq ν]

/-- A kernel with the task size of a 64-bit machine that does not balance its trees. -/
def plainKernel : Kernel where
  areaStart := 2 ^ 47 - 4096 - 0x04000000 - posAreaSize
  start_aligned := by decide
  size_le_start := by decide
  end_le := by decide
  rbInsertColor tree := tree
  rbErase id tree := .ofList (tree.inorder.erase id)
  inorder_rbInsertColor _ := rfl
  inorder_rbErase id tree := SearchTree.inorder_ofList _

/-- Uninitialised words that happen to be zero. -/
def zeroJunk : Junk := ⟨fun _ _ _ => 0, fun _ => .empty⟩

/-- The machine of one user. -/
def oneUser : World Unit :=
  start plainKernel (fun _ => ⟨0, 0, []⟩) (fun _ => ⟨[], 0, 0, 0, 0, []⟩)
    fun _ => ⟨0, 0, 0, .new 1 0, 0, none⟩

end World

end StorageStack.Pos
