import StorageStack.Pos.HoleSearch
import StorageStack.Pos.WellFormed

/-!
# The counters of the store

`sys_pos_create` counts its area before `pos_insert_vm_area` counts it again.  So the counters match the
areas exactly as long as no object is created.
-/

namespace StorageStack.Pos

open IntervalTree Store

variable {ν : Type} {kernel : Kernel} {junk : Junk}

/-- The counters of the superblock and of the areas are what they count. -/
structure Counted (store : Store ν) : Prop where
  nrPages : ∀ id ∈ store.sb.rb.inorder,
    (store.vma id).nrPages = pagesBetween (store.lo id) (store.hi id)
  totalVm : store.sb.totalVm = (store.sb.rb.inorder.map fun id => ((store.vma id).nrPages : Int)).sum
  vmCount : store.sb.vmCount = store.sb.rb.inorder.length
  nsCount : store.sb.nsCount = store.sb.names.length

namespace World

variable [DecidableEq ν] {world final : World ν}

/-- The counters match, and of the deletions that succeed exactly that of the last object initialises
the superblock. -/
structure CountersMatch (kernel : Kernel) (world : World ν) : Prop where
  counted : Counted world.store
  reinitialised : ∀ pid name final, world.sysPosDelete kernel pid name = some (final, posNormal) →
    (final.store.sb = posInit kernel ↔ world.store.sb.names.length = 1)

/-- The call does not get past the tests of `sys_pos_create`. -/
def CreatesNothing (world : World ν) : Call ν → Prop
  | .create _ name _ tooMany => tooMany = true ∨ (world.posNsSearch name).isSome
  | _ => True

theorem posNsSearch_of_posInit (empty : world.store.sb = posInit kernel) (name : ν) :
    world.posNsSearch name = none := by
  rw [posNsSearch, empty]
  rfl

/-- Without objects every call but the creation of one leaves the superblock as it was initialised. -/
theorem sb_of_createsNothing (empty : world.store.sb = posInit kernel) {call : Call ν}
    (creates : CreatesNothing world call) (step : world.step kernel junk call = some final) :
    final.store.sb = posInit kernel := by
  have search := posNsSearch_of_posInit empty
  rw [World.step, Option.map_eq_some_iff] at step
  obtain ⟨⟨next, result⟩, called, rfl⟩ := step
  cases call with
  | create pid name size tooMany =>
      rw [World.call, sysPosCreate] at called
      rcases creates with rfl | found
      · cases called
        exact empty
      · rw [search name] at found
        cases found
  | delete pid name =>
      rw [World.call, sysPosDelete, search name] at called
      cases called
      exact empty
  | map pid name tooMany =>
      rw [World.call, sysPosMap, search name] at called
      cases tooMany <;> cases called <;> exact empty
  | unmap pid name =>
      rw [World.call, sysPosUnmap, search name] at called
      cases called
      exact empty
  | segAlloc pid name len tooMany refuses =>
      rw [World.call, sysPosSegAlloc, search name] at called
      dsimp only at called
      split at called <;> cases called <;> exact empty
  | segFree pid name addr len =>
      rw [World.call, sysPosSegFree, search name] at called
      dsimp only at called
      split at called <;> cases called <;> exact empty
  | exit pid =>
      rw [World.call, Option.map_eq_some_iff] at called
      obtain ⟨left, exited, same⟩ := called
      cases same
      rw [(posProcessExit_spec exited).1.same.sb]
      exact empty
  | die pid =>
      cases called
      exact empty

/-- An initialised superblock counts nothing. -/
theorem countersMatch_of_posInit (empty : world.store.sb = posInit kernel) :
    CountersMatch kernel world where
  counted := by
    constructor <;> rw [empty]
    · exact fun _ member => nomatch member
    · rfl
    · rfl
    · rfl
  reinitialised := by
    intro pid name final called
    rw [sysPosDelete, posNsSearch_of_posInit empty name] at called
    have impossible := congrArg Prod.snd (Option.some.inj called)
    cases impossible

/-- The first object has one area, counted twice. -/
theorem not_counted_of_create (empty : world.store.sb = posInit kernel) {pid : Pid} {name : ν}
    {size result : Nat}
    (called : world.sysPosCreate kernel pid name size false = some (final, result)) :
    ¬Counted final.store := by
  intro counted
  rw [sysPosCreate, if_neg Bool.false_ne_true, posNsSearch_of_posInit empty name] at called
  rw [Option.isSome_none, if_neg Bool.false_ne_true] at called
  dsimp only at called
  generalize searched : Store.posGetUnmappedArea kernel _ (size * 1024 % 2 ^ 64) = search at called
  cases search with
  | none => cases called
  | some found =>
      obtain ⟨vmStart, prev, store⟩ := found
      obtain ⟨cache, hole, free, rfl⟩ := recached_posGetUnmappedArea searched
      rw [empty] at called
      cases called
      have doubled : (0 + 1 + 1 : Int) = ((kernel.rbInsertColor
          (.node .leaf world.store.nextVma .leaf)).inorder.length : Int) := counted.vmCount
      rw [kernel.inorder_rbInsertColor] at doubled
      cases doubled

/-- In a run from the start the counters match throughout exactly if no call creates an object. -/
theorem counters_match_iff {cred : Pid → Cred} {record : RecordId → NsRecord} {vma : VmaId → VmArea}
    {calls : List (Call ν)}
    (execution : Execution.run (World.step kernel junk) (start kernel cred record vma) calls =
      some final) :
    Execution.Always (World.step kernel junk) (CountersMatch kernel) (start kernel cred record vma)
        calls ↔
      Execution.Meets (World.step kernel junk) CreatesNothing (start kernel cred record vma) calls := by
  refine @Execution.always_iff_meets _ _ _ (fun _ _ => True) _
    (fun world => world.store.sb = posInit kernel) _ ?_ ?_ ?_ _ _ _ rfl ?_ execution
  · exact fun _ empty => countersMatch_of_posInit empty
  · exact fun _ _ _ empty _ creates step => sb_of_createsNothing empty creates step
  · intro world call next empty _ step counters
    cases call with
    | create pid name size tooMany =>
        cases tooMany with
        | true => exact .inl rfl
        | false =>
            rw [World.step, Option.map_eq_some_iff] at step
            obtain ⟨⟨final, result⟩, called, rfl⟩ := step
            exact absurd counters.counted (not_counted_of_create empty called)
    | _ => trivial
  · exact (Execution.meets_iff_forall execution).mpr fun _ _ => trivial

theorem counters_match_iff_example : ∃ final, Execution.run (World.step plainKernel zeroJunk) oneUser
    [.delete 0 (), .map 0 () false] = some final ∧
      Execution.Always (World.step plainKernel zeroJunk) (CountersMatch plainKernel) oneUser
        [.delete 0 (), .map 0 () false] := by
  have execution : Execution.run (World.step plainKernel zeroJunk) oneUser
      [.delete 0 (), .map 0 () false] = some oneUser := rfl
  exact ⟨_, execution, (counters_match_iff execution).mpr
    ⟨trivial, fun _ _ => ⟨trivial, fun _ _ => trivial⟩⟩⟩

/-- After the first object of four kilobytes one area is counted as two. -/
theorem create_not_counted : ∃ final, Execution.run (World.step plainKernel zeroJunk) oneUser
    [.create 0 () 4 false] = some final ∧ final.store.sb.rb.inorder.length = 1 ∧
      final.store.sb.vmCount = 2 ∧ ¬CountersMatch plainKernel final := by
  refine ⟨_, rfl, rfl, rfl, fun counters => ?_⟩
  have doubled := counters.counted.vmCount
  cases doubled

end World

end StorageStack.Pos
