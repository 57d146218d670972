import StorageStack.Pos.AreaChanges
import StorageStack.Pos.SystemCalls

/-!
# The objects of the store

Every area belongs to the record of a named object and is in the list of that object.  The file states
this as an invariant beside the layout of the areas, and what the calls that create and delete objects
do to both.
-/

namespace StorageStack.Pos

open IntervalTree LinkedChain Store

variable {ν : Type} {kernel : Kernel} {junk : Junk} {store other : Store ν}
  {areas areas' : List VmaId} {record : RecordId}

/-- Each area is in the list of exactly the named object that its record belongs to. -/
structure Catalogued (store : Store ν) (areas : List VmaId) : Prop where
  names : (store.sb.names.map Prod.fst).Nodup
  records : (store.sb.names.map Prod.snd).Nodup
  fresh : ∀ entry ∈ store.sb.names, entry.2 < store.nextRecord
  count : store.sb.nsCount = store.sb.names.length
  owned : ∀ id ∈ areas, ∃ entry ∈ store.sb.names, entry.2 = store.owner id
  listed : ∀ entry ∈ store.sb.names, (store.record entry.2).vmList = store.areasOf areas entry.2

namespace Catalogued

theorem mem_of_lookup [DecidableEq ν] {name : ν} (found : store.sb.names.lookup name = some record) :
    (name, record) ∈ store.sb.names := by
  obtain ⟨front, back, split, _⟩ := List.lookup_eq_some_iff.mp found
  rw [split]
  exact List.mem_append_right _ (List.mem_cons_self ..)

/-- The object of a named entry is determined by its record. -/
theorem eq_of_record (catalogued : Catalogued store areas) {first second : ν × RecordId}
    (member : first ∈ store.sb.names) (member' : second ∈ store.sb.names)
    (same : first.2 = second.2) : first = second :=
  List.inj_on_of_nodup_map catalogued.records member member' same

/-- The name of an entry determines its record. -/
theorem eq_of_name (catalogued : Catalogued store areas) {first second : ν × RecordId}
    (member : first ∈ store.sb.names) (member' : second ∈ store.sb.names)
    (same : first.1 = second.1) : first = second :=
  List.inj_on_of_nodup_map catalogued.names member member' same

/-- No area belongs to a record that has not been allocated. -/
theorem not_covers (catalogued : Catalogued store areas) (new : store.nextRecord ≤ record)
    (addr : Nat) : ¬Covers store areas record addr := by
  rintro ⟨id, member, rfl, _⟩
  obtain ⟨entry, live, eq⟩ := catalogued.owned id member
  have old := catalogued.fresh entry live
  rw [eq] at old
  exact absurd old (Nat.not_lt.mpr new)

end Catalogued

/-- A change of the areas of a named object keeps the catalogue. -/
theorem Store.Changed.catalogued {covers : RecordId → Nat → Prop}
    (changed : Changed kernel store areas record other areas' covers)
    (catalogued : Catalogued store areas) (live : ∃ entry ∈ store.sb.names, entry.2 = record) :
    Catalogued other areas' where
  names := changed.names.symm ▸ catalogued.names
  records := changed.names.symm ▸ catalogued.records
  fresh entry member := by
    rw [changed.names] at member
    rw [changed.nextRecord]
    exact catalogued.fresh entry member
  count := by
    rw [changed.nsCount, changed.names]
    exact catalogued.count
  owned id member := by
    rw [changed.names]
    rcases changed.owned id member with own | ⟨old, inside, own⟩
    · rw [own]
      exact live
    · rw [← own]
      exact catalogued.owned old inside
  listed entry member := by
    rw [changed.names] at member
    exact changed.listed entry.2 (catalogued.listed entry member)

/-- The catalogue does not depend on the task lists. -/
theorem Catalogued.setTaskList (catalogued : Catalogued store areas) (record : RecordId)
    (change : List TaskPid → List TaskPid) : Catalogued (store.setRecord record fun desc =>
      { desc with taskList := change desc.taskList }) areas where
  names := catalogued.names
  records := catalogued.records
  fresh := catalogued.fresh
  count := catalogued.count
  owned := catalogued.owned
  listed entry member := by
    have listed := catalogued.listed entry member
    by_cases eq : entry.2 = record
    · rw [eq] at listed ⊢
      rw [record_setRecord_self]
      exact listed
    · rw [record_setRecord_of_ne eq]
      exact listed

theorem Catalogued.withCaches (catalogued : Catalogued store areas) {sb : Superblock ν}
    (names : sb.names = store.sb.names) (nsCount : sb.nsCount = store.sb.nsCount) :
    Catalogued { store with sb := sb } areas where
  names := names ▸ catalogued.names
  records := names ▸ catalogued.records
  fresh := names ▸ catalogued.fresh
  count := by
    rw [nsCount, names]
    exact catalogued.count
  owned := names ▸ catalogued.owned
  listed := names ▸ catalogued.listed

/-- A new task list changes nothing else of the records. -/
theorem setTasks_of_records (record : RecordId) (left : List TaskPid)
    (records : ∀ object, { other.record object with vmList := [] } =
      { store.record object with vmList := [] }) (object : RecordId) :
    { (other.setRecord record fun desc => { desc with taskList := left }).record object with
        vmList := [], taskList := [] } =
      { store.record object with vmList := [], taskList := [] } := by
  have same := congrArg (fun desc : NsRecord => { desc with taskList := [] }) (records object)
  by_cases eq : object = record
  · subst eq
    rw [record_setRecord_self]
    exact same
  · rw [record_setRecord_of_ne eq]
    exact same

/-! ## Creating an object -/

namespace World

variable {world final : World ν} {pid : Pid} {name : ν} {result : Nat}

/-- The store when `sys_pos_create` looks for a hole: the name, a record and an area are taken. -/
def entered (world : World ν) (name : ν) : Store ν :=
  { world.store with
    sb := { world.store.sb with names := (name, world.store.nextRecord) :: world.store.sb.names }
    nextRecord := world.store.nextRecord + 1
    nextVma := world.store.nextVma + 1 }

/-- The number of bytes that `sys_pos_create` asks for. -/
def createBytes (size : Nat) : Nat := size * 1024 % 2 ^ 64

/-- What `sys_pos_create` does when it finds a hole. -/
structure Created (kernel : Kernel) (world : World ν) (areas : List VmaId) (pid : Pid) (name : ν)
    (bytes addr : Nat) (final : World ν) (areas' : List VmaId) : Prop where
  layout : Layout kernel final.store areas'
  catalogued : Catalogued final.store areas'
  covers : ∀ object address, Covers final.store areas' object address ↔
    Covers world.store areas object address ∨
      object = world.store.nextRecord ∧ addr ≤ address ∧ address < addr + bytes
  names : final.store.sb.names = (name, world.store.nextRecord) :: world.store.sb.names
  old : ∀ object, object ≠ world.store.nextRecord →
    final.store.record object = world.store.record object
  desc : { final.store.record world.store.nextRecord with vmList := [] } =
    { vmList := []
      primeSeg := addr
      uid := (world.cred pid).uid
      gid := (world.cred pid).gid
      mode := posDefaultMode
      taskList := [⟨pid, posUsrMode posDefaultMode⟩] }
  aligned : Aligned world.store areas → bytes % pageSize = 0 → Aligned final.store areas'
  untouched : Untouched world.store areas → bytes / pageSize ≤ posMapNr →
    Untouched final.store areas'
  alive : final.alive = world.alive
  cred : final.cred = world.cred
  mapped : ∀ process address, final.mapped process address =
    if process = pid ∧ addr ≤ address ∧ address < addr + bytes
      then some (rightsOf (posUsrMode posDefaultMode)) else world.mapped process address

theorem mapped_posMapVma (start stop mode : Nat) (process : Pid) (address : Nat) :
    (world.posMapVma pid start stop mode).mapped process address =
      if process = pid ∧ start ≤ address ∧ address < stop then some (rightsOf mode)
      else world.mapped process address := by
  rw [posMapVma]
  by_cases same : process = pid
  · subst same
    simp
  · simp [same]

theorem mapped_doMunmap (start stop : Nat) (process : Pid) (address : Nat) :
    (world.doMunmap pid start stop).mapped process address =
      if process = pid ∧ start ≤ address ∧ address < stop then none
      else world.mapped process address := by
  rw [doMunmap]
  by_cases same : process = pid
  · subst same
    simp
  · simp [same]

/-- The first area of a new object, in a hole. -/
theorem firstArea_spec (layout : Layout kernel store areas) {id : VmaId} (new : id ∉ areas)
    (allocated : id < store.nextVma) {area : VmArea} (proper : area.vmStart < area.vmEnd)
    (low : kernel.areaStart ≤ area.vmStart) (high : area.vmEnd ≤ kernel.areaEnd)
    (free : ∀ other ∈ areas, store.hi other ≤ area.vmStart ∨ area.vmEnd ≤ store.lo other)
    (change : NsRecord → NsRecord) {written : Store ν} (writtenEq : written = Store.setRecord
      { store with vma := Function.update store.vma id area } area.nsRecord change) :
    ∃ final front back, final = Store.posInsertVmArea kernel { written with
        sb := { written.sb with vmCount := written.sb.vmCount + 1 } } id ∧
      areas = front ++ back ∧ Layout kernel final (front ++ id :: back) ∧
      Edited store final area.nsRecord id area.vmStart area.vmEnd area.mapArray ∧
      final.record = Function.update store.record area.nsRecord
        (change (store.record area.nsRecord)) ∧
      final.sb.names = store.sb.names ∧ final.sb.nsCount = store.sb.nsCount ∧
      final.nextRecord = store.nextRecord := by
  have vma : written.vma = Function.update store.vma id area := by
    rw [writtenEq]
    rfl
  have record : written.record = Function.update store.record area.nsRecord
      (change (store.record area.nsRecord)) := by
    rw [writtenEq]
    rfl
  have sb : written.sb = store.sb := by
    rw [writtenEq]
    rfl
  have nextVma : written.nextVma = store.nextVma := by
    rw [writtenEq]
    rfl
  have nextRecord : written.nextRecord = store.nextRecord := by
    rw [writtenEq]
    rfl
  have layout₁ : Layout kernel { written with
      sb := { written.sb with vmCount := written.sb.vmCount + 1 } } areas := by
    have kept := layout.write_outside new vma sb nextVma.ge
    exact kept.withCaches rfl rfl kept.cached
  have loId : written.lo id = area.vmStart := by
    rw [lo, vma, Function.update_self]
  have hiId : written.hi id = area.vmEnd := by
    rw [hi, vma, Function.update_self]
  have proper' : written.lo id < written.hi id := by
    rw [loId, hiId]
    exact proper
  obtain ⟨layout₂, same, cache⟩ := layout₁.posInsertVmArea_spec new
    (show id < written.nextVma from nextVma ▸ allocated) proper'
    (show kernel.areaStart ≤ written.lo id by rw [loId]; exact low)
    (show written.hi id ≤ kernel.areaEnd by rw [hiId]; exact high)
    (show ∀ other ∈ areas, written.hi other ≤ written.lo id ∨ written.hi id ≤ written.lo other by
      intro other member
      rw [loId, hiId, hi, lo, vma, Function.update_of_ne (ne_of_mem_of_not_mem member new)]
      exact free other member)
  exact ⟨_, _, _, rfl, layout₁.spaced.split _, layout₂, same.edited vma (cache.trans (by rw [sb])),
    same.record.trans record, same.names.trans (by rw [sb]), same.nsCount.trans (by rw [sb]),
    same.nextRecord.trans nextRecord⟩

theorem sysPosCreate_spec [DecidableEq ν] (layout : Layout kernel world.store areas)
    (catalogued : Catalogued world.store areas) {size : Nat} {tooMany : Bool}
    (hole : tooMany = false → world.posNsSearch name = none → 0 < createBytes size ∧
      ∀ addr prev store, (world.entered name).posGetUnmappedArea kernel (createBytes size) =
        some (addr, prev, store) → addr ≠ posError)
    (call : world.sysPosCreate kernel pid name size tooMany = some (final, result)) :
    (final = world ∧ result = posError) ∨
      (result ≠ posError ∧ tooMany = false ∧ world.posNsSearch name = none ∧ ∃ areas',
        Created kernel world areas pid name (createBytes size) result final areas') := by
  rw [sysPosCreate] at call
  cases tooMany with
  | true =>
      cases call
      exact Or.inl ⟨rfl, rfl⟩
  | false =>
      rw [if_neg Bool.false_ne_true] at call
      cases search : world.posNsSearch name with
      | some record =>
          rw [search] at call
          cases call
          exact Or.inl ⟨rfl, rfl⟩
      | none =>
          rw [search] at call
          obtain ⟨positive, found⟩ := hole rfl search
          have newName : name ∉ world.store.sb.names.map Prod.fst := by
            intro member
            obtain ⟨entry, inside, eq⟩ := List.mem_map.mp member
            have differ := List.lookup_eq_none_iff.mp search entry inside
            rw [eq] at differ
            simp at differ
          have layout₀ : Layout kernel (world.entered name) areas :=
            ⟨layout.chain, layout.inorder, layout.spaced, layout.within,
              fun id member => (layout.fresh id member).trans (Nat.lt_succ_self _), layout.cached⟩
          obtain ⟨addr, prev, sb, searchEq, layout₁, same, _, outcome⟩ :=
            layout₀.posGetUnmappedArea_spec (createBytes size)
          have notError := found addr prev _ searchEq
          obtain ⟨low, high, known, cache, free, _⟩ :=
            outcome.resolve_left fun error => notError error.1
          have new : world.store.nextVma ∉ areas := fun member =>
            Nat.lt_irrefl _ (layout.fresh _ member)
          have wrap : (addr + createBytes size) % 2 ^ 64 = addr + createBytes size := by
            have small := kernel.end_le
            rw [Kernel.areaEnd] at high
            omega
          rw [createBytes, entered] at searchEq
          dsimp only [Option.isSome_none, Bool.false_eq_true, if_false] at call
          rw [searchEq] at call
          obtain ⟨finalEq, resultEq⟩ := Prod.mk.inj (Option.some.inj call)
          obtain ⟨placed, front, back, placedEq, split, layout₂, edited, record, names, nsCount,
            nextRecord⟩ := @firstArea_spec _ kernel { world.entered name with sb := sb } areas
              layout₁ world.store.nextVma new (Nat.lt_succ_self _)
              { vmStart := addr
                vmEnd := (addr + createBytes size) % 2 ^ 64
                nrPages := 1
                mapArray := MapArray.new 1 (addr / pageSize)
                nsRecord := world.store.nextRecord
                vmNext := none } (by rw [wrap]; exact Nat.lt_add_of_pos_right positive) low (by rw [wrap]; exact high)
              (by rw [wrap]; exact free) (fun _ =>
                { vmList := [world.store.nextVma], primeSeg := addr, uid := (world.cred pid).uid
                  gid := (world.cred pid).gid, mode := posDefaultMode
                  taskList := [⟨pid, posUsrMode posDefaultMode⟩] }) _ rfl
          have eq : final = World.posMapVma { world with store := { placed with
              sb := { placed.sb with nsCount := placed.sb.nsCount + 1 } } } pid
              (placed.lo world.store.nextVma) (placed.hi world.store.nextVma)
              (posUsrMode posDefaultMode) := by
            rw [placedEq]
            exact finalEq.symm
          subst resultEq
          refine Or.inr ⟨notError, rfl, rfl, front ++ world.store.nextVma :: back, ?_⟩
          rw [wrap] at edited
          have owner : ∀ id ∈ areas, placed.owner id = world.store.owner id := by
            intro id member
            rw [edited.owner, Function.update_of_ne (ne_of_mem_of_not_mem member new)]
            rfl
          have members : front ++ world.store.nextVma :: back ⊆ world.store.nextVma :: areas := by
            rw [split]
            intro id
            simp only [List.mem_append, List.mem_cons]
            tauto
          have ids : ∀ entry ∈ world.store.sb.names, entry.2 ≠ world.store.nextRecord :=
            fun entry inside => ne_of_lt (catalogued.fresh entry inside)
          have aligned : Aligned world.store areas → createBytes size % pageSize = 0 →
              Aligned placed (front ++ world.store.nextVma :: back) := by
            intro aligned whole
            have start := aligned.known known
            have stop : (addr + createBytes size) % pageSize = 0 := by
              rw [Nat.add_mod, start, whole, Nat.add_zero, Nat.zero_mod]
            refine edited.aligned members ⟨aligned.area, ?_⟩ start stop
            rw [cache]
            exact stop
          have loNew : placed.lo world.store.nextVma = addr := by
            rw [edited.lo, Function.update_self]
          have hiNew : placed.hi world.store.nextVma = addr + createBytes size := by
            rw [edited.hi, Function.update_self]
          have ownNew : placed.owner world.store.nextVma = world.store.nextRecord := by
            rw [edited.owner, Function.update_self]
          have untouched : Untouched world.store areas → createBytes size / pageSize ≤ posMapNr →
              Untouched placed (front ++ world.store.nextVma :: back) := by
            intro untouched few
            refine edited.untouched members untouched ⟨rfl, ?_, fun _ => rfl⟩
            rw [Nat.add_sub_cancel_left]
            exact few
          have listed : Catalogued { placed with sb := { placed.sb with
              nsCount := placed.sb.nsCount + 1 } } (front ++ world.store.nextVma :: back) := by
            have names' := names.trans same.names
            refine ⟨?_, ?_, fun entry inside => ?_, ?_, fun id inside => ?_, fun entry inside => ?_⟩
            · change (placed.sb.names.map Prod.fst).Nodup
              rw [names']
              exact List.nodup_cons.mpr ⟨newName, catalogued.names⟩
            · change (placed.sb.names.map Prod.snd).Nodup
              rw [names']
              refine List.nodup_cons.mpr ⟨fun member => ?_, catalogued.records⟩
              obtain ⟨entry, inside, eq⟩ := List.mem_map.mp member
              exact ids entry inside eq
            · change entry ∈ placed.sb.names at inside
              change entry.2 < placed.nextRecord
              rw [names'] at inside
              rw [nextRecord]
              rcases List.mem_cons.mp inside with rfl | old
              · exact Nat.lt_succ_self _
              · exact (catalogued.fresh entry old).trans (Nat.lt_succ_self _)
            · change placed.sb.nsCount + 1 = placed.sb.names.length
              rw [names', nsCount, same.nsCount]
              exact congrArg (· + 1) catalogued.count
            · change ∃ entry ∈ placed.sb.names, entry.2 = placed.owner id
              rw [names']
              rcases List.mem_cons.mp (members inside) with rfl | old
              · exact ⟨_, List.mem_cons_self .., ownNew.symm⟩
              · obtain ⟨entry, live, eq⟩ := catalogued.owned id old
                exact ⟨entry, List.mem_cons_of_mem _ live, eq.trans (owner id old).symm⟩
            · change entry ∈ placed.sb.names at inside
              change (placed.record entry.2).vmList = placed.areasOf _ entry.2
              rw [names'] at inside
              rw [record]
              rcases List.mem_cons.mp inside with rfl | old
              · have alone : ∀ part : List VmaId, part ⊆ areas →
                    placed.areasOf part world.store.nextRecord = [] := by
                  intro part sub
                  refine List.filter_eq_nil_iff.mpr fun id member => ?_
                  obtain ⟨entry, live, eq⟩ := catalogued.owned id (sub member)
                  rw [owner id (sub member), ← eq]
                  simpa using ids entry live
                rw [Function.update_self, areasOf, List.filter_append,
                  List.filter_cons_of_pos (by simpa using ownNew), ← areasOf, ← areasOf, alone front,
                  alone back]
                · rfl
                · rw [split]
                  exact List.subset_append_right ..
                · rw [split]
                  exact List.subset_append_left ..
              · rw [Function.update_of_ne (ids entry old)]
                refine (catalogued.listed entry old).trans ((areasOf_congr owner entry.2).symm.trans ?_)
                exact (areasOf_insert_of_ne (fun own => ids entry old (own.symm.trans ownNew)) split).symm
          subst eq
          exact {
            layout := layout₂.withCaches rfl rfl layout₂.cached
            catalogued := listed
            covers := edited.covers_insert new split
            names := names.trans same.names
            old := fun object ne => by
              change placed.record object = _
              rw [record, Function.update_of_ne ne]
              rfl
            desc := by
              change { placed.record _ with vmList := [] } = _
              rw [record, Function.update_self]
            aligned := fun al whole => ⟨(aligned al whole).area, (aligned al whole).cache⟩
            untouched := untouched
            alive := rfl
            cred := rfl
            mapped := fun process address => by
              rw [mapped_posMapVma, loNew, hiNew] }

/-! ## Deleting an object -/

/-- What the loop of `sys_pos_delete` leaves. -/
structure Emptied (kernel : Kernel) (world : World ν) (areas : List VmaId) (pid : Pid)
    (record : RecordId) (final : World ν) (areas' : List VmaId) : Prop where
  layout : Layout kernel final.store areas'
  covers : ∀ object address, Covers final.store areas' object address ↔
    object ≠ record ∧ Covers world.store areas object address
  owned : ∀ id ∈ areas', final.store.owner id ≠ record ∧
    ∃ old ∈ areas, world.store.owner old = final.store.owner id
  listed : ∀ object, object ≠ record →
    (world.store.record object).vmList = world.store.areasOf areas object →
    (final.store.record object).vmList = final.store.areasOf areas' object
  records : ∀ object, { final.store.record object with vmList := [] } =
    { world.store.record object with vmList := [] }
  names : final.store.sb.names = world.store.sb.names
  nsCount : final.store.sb.nsCount = world.store.sb.nsCount
  nextRecord : final.store.nextRecord = world.store.nextRecord
  aligned : Aligned world.store areas → Aligned final.store areas'
  untouched : Untouched world.store areas → Untouched final.store areas'
  alive : final.alive = world.alive
  cred : final.cred = world.cred
  unmapped : ∀ address, Covers world.store areas record address → final.mapped pid address = none
  mapped : ∀ process address, ¬(process = pid ∧ Covers world.store areas record address) →
    final.mapped process address = world.mapped process address

theorem covers_iff_of_listed (listed : (store.record record).vmList = store.areasOf areas record)
    (addr : Nat) : Covers store areas record addr ↔
      ∃ id ∈ (store.record record).vmList, store.lo id ≤ addr ∧ addr < store.hi id := by
  simp only [Covers, listed, mem_areasOf, and_assoc]

theorem deleteAreas_spec (pid : Pid) (record : RecordId) (rounds : Nat) :
    ∀ (world : World ν) (areas : List VmaId), Layout kernel world.store areas →
      (world.store.record record).vmList = world.store.areasOf areas record →
      (world.store.record record).vmList.length = rounds →
      ∃ final areas', deleteAreas kernel pid record rounds world = (true, final) ∧
        Emptied kernel world areas pid record final areas' := by
  induction rounds with
  | zero =>
      intro world areas layout listed none
      have nil := List.eq_nil_of_length_eq_zero none
      have bare : ∀ id ∈ areas, world.store.owner id ≠ record := by
        rintro id member own
        have inList : id ∈ world.store.areasOf areas record := mem_areasOf.mpr ⟨member, own⟩
        rw [← listed, nil] at inList
        cases inList
      have covers : ∀ object address, Covers world.store areas object address →
          object ≠ record := by
        rintro object address ⟨id, member, rfl, _⟩
        exact bare id member
      refine ⟨world, areas, rfl, layout, fun object address => ?_, fun id member =>
        ⟨bare id member, id, member, rfl⟩, fun _ _ same => same, fun _ => rfl, rfl, rfl, rfl, id, id,
        rfl, rfl, fun address here => absurd rfl (covers record address here), fun _ _ _ => rfl⟩
      exact ⟨fun here => ⟨covers object address here, here⟩, And.right⟩
  | succ rounds ih =>
      intro world areas layout listed more
      obtain ⟨id, rest, cons⟩ := List.exists_cons_of_length_eq_add_one more
      have inList : id ∈ world.store.areasOf areas record := by
        rw [← listed, cons]
        exact List.mem_cons_self ..
      obtain ⟨member, rfl⟩ := mem_areasOf.mp inList
      obtain ⟨front, back, rfl⟩ := List.append_of_mem member
      have proper := layout.spaced.2 id member
      have place := layout.posFindVmaPrev_eq (world.store.lo id)
      rw [layout.head_behind member le_rfl proper, layout.spaced.before_lo] at place
      have shrunk := (remove_spec layout).recounted
        (((world.store.posRemoveVmArea kernel id front.getLast?).listDel id).sb.vmCount - 1)
      have same := layout.posRemoveVmArea_spec.2.1
      have step : deleteAreas kernel pid (world.store.owner id) (rounds + 1) world =
          deleteAreas kernel pid (world.store.owner id) rounds
            { World.doMunmap { world with
                store := world.store.posRemoveVmArea kernel id front.getLast? } pid
                  (world.store.lo id) (world.store.hi id) with
              store := { (world.store.posRemoveVmArea kernel id front.getLast?).listDel id with
                sb := { ((world.store.posRemoveVmArea kernel id front.getLast?).listDel id).sb with
                  vmCount :=
                    ((world.store.posRemoveVmArea kernel id front.getLast?).listDel id).sb.vmCount -
                      1 } } } := by
        have own : ((world.store.posRemoveVmArea kernel id front.getLast?).vma id).nsRecord =
            world.store.owner id := same.nsRecord id
        have erased : ((world.store.posRemoveVmArea kernel id front.getLast?).setRecord
            (world.store.owner id) fun desc => { desc with vmList := desc.vmList.erase id }) =
            (world.store.posRemoveVmArea kernel id front.getLast?).listDel id := by
          rw [listDel, own]
        rw [deleteAreas, cons]
        dsimp only
        rw [place, if_pos rfl, ← same.lo, ← same.hi, ← erased]
        rfl
      have short : (((world.store.posRemoveVmArea kernel id front.getLast?).listDel id).record
          (world.store.owner id)).vmList.length = rounds := by
        have own : ((world.store.posRemoveVmArea kernel id front.getLast?).vma id).nsRecord =
            world.store.owner id := same.nsRecord id
        rw [listDel, own, record_setRecord_self, same.record, cons]
        simpa [cons] using more
      obtain ⟨final, areas', result, emptied⟩ := ih
        { World.doMunmap { world with
            store := world.store.posRemoveVmArea kernel id front.getLast? } pid
              (world.store.lo id) (world.store.hi id) with
          store := { (world.store.posRemoveVmArea kernel id front.getLast?).listDel id with
            sb := { ((world.store.posRemoveVmArea kernel id front.getLast?).listDel id).sb with
              vmCount :=
                ((world.store.posRemoveVmArea kernel id front.getLast?).listDel id).sb.vmCount - 1 } } }
        (front ++ back) shrunk.changed.layout (shrunk.changed.listed _ listed) short
      have here : ∀ address, world.store.lo id ≤ address ∧ address < world.store.hi id →
          Covers world.store (front ++ id :: back) (world.store.owner id) address :=
        fun address range => ⟨id, member, rfl, range⟩
      have apart : ∀ object address, object ≠ world.store.owner id →
          Covers world.store (front ++ id :: back) object address →
            ¬(world.store.lo id ≤ address ∧ address < world.store.hi id) := by
        rintro object address ne ⟨other, inside, rfl, low, high⟩ range
        exact ne (congrArg _ (layout.eq_of_mem inside member low high range.1 range.2))
      refine ⟨final, areas', step.trans result, emptied.layout, fun object address => ?_,
        fun other inside => ?_, fun object ne same' => ?_, fun object => ?_, ?_, ?_, ?_,
        fun aligned => emptied.aligned (shrunk.aligned aligned (aligned.area id member).1),
        fun untouched => emptied.untouched (shrunk.untouched untouched), emptied.alive, emptied.cred,
        fun address covered => ?_, fun process address away => ?_⟩
      · rw [emptied.covers, shrunk.changed.covers]
        constructor
        · rintro ⟨ne, covered, _⟩
          exact ⟨ne, covered⟩
        · rintro ⟨ne, covered⟩
          exact ⟨ne, covered, apart object address ne covered⟩
      · obtain ⟨foreign, old, inRest, own⟩ := emptied.owned other inside
        refine ⟨foreign, ?_⟩
        rcases shrunk.changed.owned old inRest with eq | ⟨older, inAreas, eq⟩
        · exact absurd (own.symm.trans eq) foreign
        · exact ⟨older, inAreas, eq.trans own⟩
      · exact emptied.listed object ne (shrunk.changed.listed object same')
      · exact (emptied.records object).trans (shrunk.changed.records object)
      · exact emptied.names.trans shrunk.changed.names
      · exact emptied.nsCount.trans shrunk.changed.nsCount
      · exact emptied.nextRecord.trans shrunk.changed.nextRecord
      · by_cases range : world.store.lo id ≤ address ∧ address < world.store.hi id
        · rw [emptied.mapped pid address fun covered => ((shrunk.changed.covers _ _).mp covered.2).2 range]
          exact (mapped_doMunmap ..).trans (if_pos ⟨rfl, range⟩)
        · exact emptied.unmapped address ((shrunk.changed.covers _ _).mpr ⟨covered, range⟩)
      · rw [emptied.mapped process address fun covered =>
          away ⟨covered.1, ((shrunk.changed.covers _ _).mp covered.2).1⟩]
        exact (mapped_doMunmap ..).trans (if_neg fun range => away ⟨range.1, here address range.2⟩)

/-- What `sys_pos_delete` does to an object that exists. -/
structure Deleted (kernel : Kernel) (world : World ν) (areas : List VmaId) (pid : Pid) (name : ν)
    (record : RecordId) (final : World ν) (areas' : List VmaId) : Prop where
  layout : Layout kernel final.store areas'
  catalogued : Catalogued final.store areas'
  covers : ∀ object address, Covers final.store areas' object address ↔
    object ≠ record ∧ Covers world.store areas object address
  names : ∀ entry, entry ∈ final.store.sb.names ↔ entry ∈ world.store.sb.names ∧ entry.1 ≠ name
  records : ∀ object, { final.store.record object with vmList := [] } =
    { world.store.record object with vmList := [] }
  aligned : Aligned world.store areas → Aligned final.store areas'
  untouched : Untouched world.store areas → Untouched final.store areas'
  alive : final.alive = world.alive
  cred : final.cred = world.cred
  unmapped : ∀ address, Covers world.store areas record address → final.mapped pid address = none
  mapped : ∀ process address, ¬(process = pid ∧ Covers world.store areas record address) →
    final.mapped process address = world.mapped process address

/-- The names without one. -/
theorem length_filter_names [DecidableEq ν] {names : List (ν × RecordId)}
    (nodup : (names.map Prod.fst).Nodup) (found : names.lookup name = some record) :
    (names.filter fun entry => entry.1 ≠ name).length + 1 = names.length := by
  obtain ⟨front, back, rfl, _⟩ := List.lookup_eq_some_iff.mp found
  rw [List.map_append, List.map_cons] at nodup
  obtain ⟨_, tail, apart⟩ := List.nodup_append.mp nodup
  have notBack := (List.nodup_cons.mp tail).1
  have front' : front.filter (fun entry => entry.1 ≠ name) = front := by
    refine List.filter_eq_self.mpr fun entry member => ?_
    simpa using apart entry.1 (List.mem_map_of_mem member) name (List.mem_cons_self ..)
  have back' : back.filter (fun entry => entry.1 ≠ name) = back := by
    refine List.filter_eq_self.mpr fun entry member => ?_
    have ne : entry.1 ≠ name := fun eq =>
      notBack (List.mem_map.mpr ⟨entry, member, eq⟩)
    simpa using ne
  rw [List.filter_append, List.filter_cons_of_neg (by simp), front', back']
  simp only [List.length_append, List.length_cons]
  rfl

theorem sysPosDelete_spec [DecidableEq ν] (layout : Layout kernel world.store areas)
    (catalogued : Catalogued world.store areas)
    (call : world.sysPosDelete kernel pid name = some (final, result)) :
    (world.posNsSearch name = none ∧ final = world ∧ result = posError) ∨
      ∃ record areas', world.posNsSearch name = some record ∧ result = posNormal ∧
        Deleted kernel world areas pid name record final areas' := by
  rw [sysPosDelete] at call
  cases search : world.posNsSearch name with
  | none =>
      rw [search] at call
      cases call
      exact Or.inl ⟨rfl, rfl, rfl⟩
  | some record =>
      rw [search] at call
      have live := Catalogued.mem_of_lookup search
      obtain ⟨emptied, areas', loop, done⟩ := deleteAreas_spec pid record _
        { world with store := { world.store with sb := { world.store.sb with
            names := world.store.sb.names.filter fun entry => entry.1 ≠ name } } } areas
        (layout.withCaches rfl rfl layout.cached) (catalogued.listed _ live) rfl
      dsimp only at call
      rw [loop] at call
      dsimp only at call
      have count := length_filter_names catalogued.names search
      have nsCount : emptied.store.sb.nsCount = world.store.sb.nsCount := done.nsCount
      have names : emptied.store.sb.names =
          world.store.sb.names.filter fun entry => entry.1 ≠ name := done.names
      have others : ∀ entry ∈ world.store.sb.names, entry.1 ≠ name ↔ entry.2 ≠ record := by
        intro entry member
        refine not_congr ⟨fun eq => ?_, fun eq => ?_⟩
        · exact congrArg Prod.snd (catalogued.eq_of_name member live eq)
        · exact congrArg Prod.fst (catalogued.eq_of_record member live eq)
      have members : ∀ entry, entry ∈ emptied.store.sb.names ↔
          entry ∈ world.store.sb.names ∧ entry.1 ≠ name := by
        intro entry
        rw [names, List.mem_filter]
        simp
      have owned : ∀ id ∈ areas', ∃ entry ∈ emptied.store.sb.names,
          entry.2 = emptied.store.owner id := by
        intro id member
        obtain ⟨foreign, old, inside, own⟩ := done.owned id member
        obtain ⟨entry, inNames, eq⟩ := catalogued.owned old inside
        have own' : entry.2 = emptied.store.owner id := eq.trans own
        exact ⟨entry, (members entry).mpr ⟨inNames, (others entry inNames).mpr (own' ▸ foreign)⟩, own'⟩
      have kept : Catalogued { emptied.store with sb := { emptied.store.sb with
          nsCount := emptied.store.sb.nsCount - 1 } } areas' := by
        refine ⟨?_, ?_, fun entry member => ?_, ?_, owned, fun entry member => ?_⟩
        · change (emptied.store.sb.names.map Prod.fst).Nodup
          rw [names]
          exact catalogued.names.sublist (List.filter_sublist.map _)
        · change (emptied.store.sb.names.map Prod.snd).Nodup
          rw [names]
          exact catalogued.records.sublist (List.filter_sublist.map _)
        · change entry.2 < emptied.store.nextRecord
          rw [done.nextRecord]
          exact catalogued.fresh entry ((members entry).mp member).1
        · change emptied.store.sb.nsCount - 1 = emptied.store.sb.names.length
          have total := catalogued.count
          rw [nsCount, names]
          omega
        · obtain ⟨inNames, ne⟩ := (members entry).mp member
          exact done.listed entry.2 ((others entry inNames).mp ne) (catalogued.listed entry inNames)
      refine Or.inr ⟨record, areas', rfl, ?_⟩
      by_cases last : emptied.store.sb.nsCount - 1 = 0
      -- no object is left, so the superblock starts again
      · rw [if_pos last] at call
        obtain ⟨rfl, rfl⟩ := Prod.mk.inj (Option.some.inj call)
        have noNames : emptied.store.sb.names = [] := by
          refine List.eq_nil_of_length_eq_zero ?_
          rw [← last]
          exact kept.count.symm
        have noAreas : areas' = [] := by
          refine List.eq_nil_iff_forall_not_mem.mpr fun id member => ?_
          obtain ⟨entry, inside, _⟩ := owned id member
          rw [noNames] at inside
          cases inside
        subst noAreas
        exact ⟨rfl, {
          layout := ⟨rfl, rfl, done.layout.spaced, done.layout.within, done.layout.fresh,
            fun _ hit => nomatch hit⟩
          catalogued := ⟨List.nodup_nil, List.nodup_nil, (fun _ member => nomatch member), rfl,
            (fun _ member => nomatch member), (fun _ member => nomatch member)⟩
          covers := done.covers
          names := fun entry => by
            rw [← members, noNames]
            rfl
          records := done.records
          aligned := fun _ => ⟨(fun _ member => nomatch member), kernel.start_aligned⟩
          untouched := fun _ _ member => nomatch member
          alive := done.alive
          cred := done.cred
          unmapped := done.unmapped
          mapped := done.mapped }⟩
      · rw [if_neg last] at call
        obtain ⟨rfl, rfl⟩ := Prod.mk.inj (Option.some.inj call)
        exact ⟨rfl, {
          layout := done.layout.withCaches rfl rfl done.layout.cached
          catalogued := kept
          covers := done.covers
          names := members
          records := done.records
          aligned := fun al =>
            have aligned := done.aligned ⟨al.area, al.cache⟩
            ⟨aligned.area, aligned.cache⟩
          untouched := done.untouched
          alive := done.alive
          cred := done.cred
          unmapped := done.unmapped
          mapped := done.mapped }⟩

end World

end StorageStack.Pos
