import StorageStack.Pos.AccessRights

/-!
# Sharing objects

A process has the areas of exactly the objects it uses mapped, as long as no process maps an object twice,
nobody deletes an object that others use, the walks over the task lists pass no living process over, and
the calls stay away from the branches that break the areas.
-/

namespace StorageStack.Pos

open IntervalTree Store

variable {ν : Type} {kernel : Kernel} {junk : Junk} {areas : List VmaId}

namespace World

/-! ## Walks over a task list -/

/-- Each dead entry that the walk unlinks is followed by a dead one, which the walk passes over. -/
def PassesDead (alive : Pid → Bool) : List TaskPid → Prop
  | [] => True
  | task :: rest =>
      if alive task.pidNr then PassesDead alive rest
      else
        match rest with
        | [] => False
        | next :: rest => alive next.pidNr = false ∧ PassesDead alive rest

/-- Such a walk reaches all the living processes and keeps their entries, when none of them refuses. -/
theorem walkTasks_passesDead (alive refuses : Pid → Bool) (skipped tasks : List TaskPid)
    (passes : PassesDead alive tasks) (dead : ∀ task ∈ skipped, alive task.pidNr = false)
    (willing : ∀ task ∈ tasks, alive task.pidNr = true → refuses task.pidNr = false) :
    ∃ walk, walkTasks alive refuses skipped tasks = some walk ∧ walk.done = true ∧
      ∀ pid, alive pid = true → tasksOf pid walk.left = tasksOf pid tasks ∧
        (pid ∈ walk.visited ↔ 0 < tasksOf pid tasks) := by
  have gone : ∀ pid, alive pid = true → ∀ skipped : List TaskPid,
      (∀ task ∈ skipped, alive task.pidNr = false) → tasksOf pid skipped = 0 := by
    intro pid living skipped dead
    rw [tasksOf, List.countP_eq_zero]
    intro task member same
    rw [decide_eq_true_eq] at same
    rw [← same, dead task member] at living
    cases living
  induction skipped, tasks using walkTasks.induct alive refuses with
  | case1 skipped =>
      refine ⟨⟨skipped, [], true⟩, rfl, rfl, fun pid living => ⟨gone pid living skipped dead, ?_⟩⟩
      simp [tasksOf]
  | case2 skipped task rest living refused =>
      rw [willing task List.mem_cons_self living] at refused
      cases refused
  | case3 skipped task rest living willing' ih =>
      rw [PassesDead.eq_def] at passes
      dsimp only at passes
      rw [if_pos living] at passes
      obtain ⟨walk, walked, done, rest_spec⟩ := ih passes
        (fun _ member => absurd member List.not_mem_nil)
        fun other member => willing other (List.mem_cons_of_mem _ member)
      refine ⟨⟨skipped ++ task :: walk.left, task.pidNr :: walk.visited, walk.done⟩, ?_, done, ?_⟩
      · rw [walkTasks.eq_def]
        dsimp only
        rw [if_pos living, if_neg willing', walked]
        rfl
      · intro pid alive
        obtain ⟨left, visited⟩ := rest_spec pid alive
        constructor
        · rw [tasksOf, List.countP_append]
          change tasksOf pid skipped + tasksOf pid (task :: walk.left) = _
          rw [gone pid alive skipped dead, Nat.zero_add, tasksOf_cons, left, tasksOf_cons]
        · rw [List.mem_cons, visited, tasksOf_cons]
          split
          · rename_i same
            exact ⟨fun _ => Nat.succ_pos _, fun _ => .inl same.symm⟩
          · rename_i apart
            exact ⟨fun either => either.resolve_left fun same => apart same.symm, .inr⟩
  | case4 skipped task dead' =>
      rw [PassesDead.eq_def] at passes
      dsimp only at passes
      rw [if_neg dead'] at passes
      exact passes.elim
  | case5 skipped task dead' next rest ih =>
      rw [PassesDead.eq_def] at passes
      dsimp only at passes
      rw [if_neg dead'] at passes
      obtain ⟨passed, passes⟩ := passes
      obtain ⟨walk, walked, done, rest_spec⟩ := ih passes
        (fun other member => (List.mem_singleton.mp member) ▸ passed)
        fun other member => willing other (List.mem_cons_of_mem _ (List.mem_cons_of_mem _ member))
      refine ⟨walk, ?_, done, fun pid living => ?_⟩
      · rw [walkTasks.eq_def]
        dsimp only
        rw [if_neg dead', walked]
      · have both : tasksOf pid (task :: next :: rest) = tasksOf pid rest := by
          have apart : ∀ other : TaskPid, alive other.pidNr ≠ true → other.pidNr ≠ pid := by
            rintro other down rfl
            exact down living
          rw [tasksOf_cons, tasksOf_cons, if_neg (apart task dead'),
            if_neg (apart next (by simp [passed])), Nat.add_zero]
        rw [both]
        exact rest_spec pid living

end World

namespace Watched

open World

variable {state next : Watched ν}

/-- What the calls keep. -/
structure Consistent (kernel : Kernel) (state : Watched ν) (areas : List VmaId) : Prop where
  layout : Layout kernel state.world.store areas
  catalogued : Catalogued state.world.store areas
  prime : ∀ entry ∈ state.world.store.sb.names,
    kernel.areaStart ≤ (state.world.store.record entry.2).primeSeg ∧
      (state.world.store.record entry.2).primeSeg < kernel.areaEnd
  uses : ∀ entry ∈ state.world.store.sb.names, ∀ pid, state.world.alive pid = true →
    tasksOf pid (state.world.store.record entry.2).taskList = state.uses entry.2 pid ∧
      state.uses entry.2 pid ≤ 1
  unused : ∀ record, (∀ entry ∈ state.world.store.sb.names, entry.2 ≠ record) →
    ∀ pid, state.uses record pid = 0
  mapped : ∀ pid, state.world.alive pid = true → ∀ address,
    (state.world.mapped pid address).isSome ↔ ∃ entry ∈ state.world.store.sb.names,
      0 < state.uses entry.2 pid ∧ Covers state.world.store areas entry.2 address

/-- A call that keeps the objects. -/
theorem Consistent.kept (consistent : Consistent kernel state areas) {final : World ν}
    {areas' : List VmaId} {uses : RecordId → Pid → Nat} (layout : Layout kernel final.store areas')
    (catalogued : Catalogued final.store areas')
    (names : final.store.sb.names = state.world.store.sb.names)
    (primes : ∀ object, (final.store.record object).primeSeg =
      (state.world.store.record object).primeSeg)
    (used : ∀ entry ∈ state.world.store.sb.names, ∀ pid, final.alive pid = true →
      tasksOf pid (final.store.record entry.2).taskList = uses entry.2 pid ∧ uses entry.2 pid ≤ 1)
    (unused : ∀ record, (∀ entry ∈ state.world.store.sb.names, entry.2 ≠ record) →
      ∀ pid, uses record pid = 0)
    (mapped : ∀ pid, final.alive pid = true → ∀ address, (final.mapped pid address).isSome ↔
      ∃ entry ∈ state.world.store.sb.names, 0 < uses entry.2 pid ∧
        Covers final.store areas' entry.2 address) :
    Consistent kernel ⟨final, uses⟩ areas' where
  layout := layout
  catalogued := catalogued
  prime entry live := by
    rw [primes]
    exact consistent.prime entry (names ▸ live)
  uses entry live := used entry (names ▸ live)
  unused record dead := unused record (names ▸ dead)
  mapped pid living address := by
    show (final.mapped pid address).isSome ↔ ∃ entry ∈ final.store.sb.names,
      0 < uses entry.2 pid ∧ Covers final.store areas' entry.2 address
    rw [names]
    exact mapped pid living address

/-- A process uses one more object. -/
theorem Consistent.mapAdded (consistent : Consistent kernel state areas) {pid : Pid} {name : ν}
    {record : RecordId} {mode : Nat} {final : World ν}
    (live : (name, record) ∈ state.world.store.sb.names)
    (new : taskOf pid (state.world.store.record record).taskList = none)
    (mapped : Mapped state.world areas pid record mode final) :
    Consistent kernel ⟨final, state.count record pid (· + 1)⟩ areas := by
  refine consistent.kept (mapped.same.layout consistent.layout)
    (mapped.same.catalogued consistent.catalogued) (by rw [mapped.same.sb]) mapped.same.primeSeg
    ?_ ?_ ?_
  · intro entry live' process living
    rw [mapped.alive] at living
    obtain ⟨counted, once⟩ := consistent.uses entry live' process living
    by_cases here : entry.2 = record
    · rw [here, mapped.tasks, tasksOf_cons]
      rw [here] at counted once
      by_cases same : pid = process
      · subst same
        have none := taskOf_eq_none.mp new
        rw [if_pos rfl, count_self]
        omega
      · rw [if_neg same, count_of_ne fun both => same both.2.symm]
        exact ⟨counted, once⟩
    · rw [mapped.others entry.2 here, count_of_ne fun both => here both.1]
      exact ⟨counted, once⟩
  · intro object dead process
    rw [count_of_ne fun both => dead _ live both.1.symm]
    exact consistent.unused object dead process
  · intro process living address
    rw [mapped.alive] at living
    simp only [mapped.same.covers]
    by_cases here : process = pid ∧ Covers state.world.store areas record address
    · obtain ⟨rfl, covered⟩ := here
      rw [mapped.inside address covered]
      refine iff_of_true rfl ⟨_, live, ?_, covered⟩
      rw [count_self]
      exact Nat.succ_pos _
    · rw [mapped.outside process address here, consistent.mapped process living address]
      refine exists_congr fun entry => and_congr_right fun live' => and_congr_left fun covered => ?_
      rw [count_of_ne]
      rintro ⟨same, rfl⟩
      exact here ⟨rfl, same ▸ covered⟩

/-- A process no longer uses an object. -/
theorem Consistent.unmapped (consistent : Consistent kernel state areas) {pid : Pid} {name : ν}
    {record : RecordId} {final : World ν} (live : (name, record) ∈ state.world.store.sb.names)
    (unmapped : Unmapped state.world areas pid record final) :
    Consistent kernel ⟨final, state.count record pid (· - 1)⟩ areas := by
  refine consistent.kept (unmapped.same.layout consistent.layout)
    (unmapped.same.catalogued consistent.catalogued) (by rw [unmapped.same.sb])
    unmapped.same.primeSeg ?_ ?_ ?_
  · intro entry live' process living
    rw [unmapped.alive] at living
    obtain ⟨counted, once⟩ := consistent.uses entry live' process living
    by_cases here : entry.2 = record
    · rw [here, unmapped.tasks, tasksOf_dropTask]
      rw [here] at counted once
      by_cases same : process = pid
      · subst same
        rw [if_pos rfl, count_self]
        omega
      · rw [if_neg same, count_of_ne fun both => same both.2]
        exact ⟨counted, once⟩
    · rw [unmapped.others entry.2 here, count_of_ne fun both => here both.1]
      exact ⟨counted, once⟩
  · intro object dead process
    rw [count_of_ne fun both => dead _ live both.1.symm]
    exact consistent.unused object dead process
  · intro process living address
    rw [unmapped.alive] at living
    simp only [unmapped.same.covers]
    by_cases here : process = pid ∧ Covers state.world.store areas record address
    · obtain ⟨rfl, covered⟩ := here
      rw [unmapped.inside address covered]
      refine iff_of_false (by simp) ?_
      rintro ⟨entry, live', used, covered'⟩
      have once := (consistent.uses _ live process living).2
      rw [consistent.layout.eq_of_covers covered' covered, count_self] at used
      dsimp only at once
      omega
    · rw [unmapped.outside process address here, consistent.mapped process living address]
      refine exists_congr fun entry => and_congr_right fun live' => and_congr_left fun covered => ?_
      rw [count_of_ne]
      rintro ⟨same, rfl⟩
      exact here ⟨rfl, same ▸ covered⟩

/-- A process creates an object in a hole. -/
theorem Consistent.created (consistent : Consistent kernel state areas) {pid : Pid} {name : ν}
    {bytes addr : Nat} {final : World ν} {areas' : List VmaId}
    (created : Created kernel state.world areas pid name bytes addr final areas') (positive : 0 < bytes) :
    Consistent kernel ⟨final, state.count state.world.store.nextRecord pid (· + 1)⟩ areas' := by
  have old : ∀ entry ∈ state.world.store.sb.names, entry.2 ≠ state.world.store.nextRecord :=
    fun entry live => (consistent.catalogued.fresh entry live).ne
  have unusedNew := consistent.unused _ old
  have primeNew : (final.store.record state.world.store.nextRecord).primeSeg = addr :=
    congrArg NsRecord.primeSeg created.desc
  have tasksNew : (final.store.record state.world.store.nextRecord).taskList =
      [⟨pid, posUsrMode posDefaultMode⟩] := congrArg NsRecord.taskList created.desc
  have usesOld : ∀ object, object ≠ state.world.store.nextRecord → ∀ process,
      state.count state.world.store.nextRecord pid (· + 1) object process =
        state.uses object process :=
    fun object apart process => count_of_ne (fun same => apart same.1) _
  have coversNew : ∀ address, Covers final.store areas' state.world.store.nextRecord address ↔
      addr ≤ address ∧ address < addr + bytes := by
    intro address
    rw [created.covers]
    exact ⟨fun either => (either.resolve_left
      (consistent.catalogued.not_covers le_rfl address)).2, fun inside => .inr ⟨rfl, inside⟩⟩
  have coversOld : ∀ entry ∈ state.world.store.sb.names, ∀ address,
      Covers final.store areas' entry.2 address ↔ Covers state.world.store areas entry.2 address := by
    intro entry live address
    rw [created.covers]
    exact or_iff_left fun new => old entry live new.1
  refine ⟨created.layout, created.catalogued, ?_, ?_, ?_, ?_⟩
  · intro entry live
    have live' : entry ∈ final.store.sb.names := live
    rw [created.names] at live'
    rcases List.mem_cons.mp live' with rfl | before
    · obtain ⟨id, member, -, low, high⟩ := (coversNew addr).mpr
        ⟨le_rfl, Nat.lt_add_of_pos_right positive⟩
      have within := created.layout.within id member
      show kernel.areaStart ≤ (final.store.record _).primeSeg ∧ _
      rw [primeNew]
      exact ⟨within.1.trans low, high.trans_le within.2⟩
    · show kernel.areaStart ≤ (final.store.record entry.2).primeSeg ∧
        (final.store.record entry.2).primeSeg < kernel.areaEnd
      rw [created.old entry.2 (old entry before)]
      exact consistent.prime entry before
  · intro entry live process living
    have live' : entry ∈ final.store.sb.names := live
    have living' : final.alive process = true := living
    rw [created.names] at live'
    rw [created.alive] at living'
    show tasksOf process (final.store.record entry.2).taskList =
        state.count state.world.store.nextRecord pid (· + 1) entry.2 process ∧
      state.count state.world.store.nextRecord pid (· + 1) entry.2 process ≤ 1
    rcases List.mem_cons.mp live' with rfl | before
    · rw [tasksNew, tasksOf_cons]
      by_cases same : pid = process
      · subst same
        rw [count_self, unusedNew, if_pos rfl]
        exact ⟨rfl, le_rfl⟩
      · rw [count_of_ne fun both => same both.2.symm, unusedNew, if_neg same]
        exact ⟨rfl, Nat.zero_le _⟩
    · rw [created.old entry.2 (old entry before), usesOld entry.2 (old entry before)]
      exact consistent.uses entry before process living'
  · intro record dead process
    have dead' : ∀ entry ∈ final.store.sb.names, entry.2 ≠ record := dead
    rw [created.names, List.forall_mem_cons] at dead'
    exact (usesOld record (Ne.symm dead'.1) process).trans (consistent.unused record dead'.2 process)
  · intro process living address
    have living' : final.alive process = true := living
    rw [created.alive] at living'
    show (final.mapped process address).isSome ↔ ∃ entry ∈ final.store.sb.names,
      0 < state.count state.world.store.nextRecord pid (· + 1) entry.2 process ∧
        Covers final.store areas' entry.2 address
    rw [created.mapped, created.names, List.exists_mem_cons_iff, coversNew]
    by_cases here : process = pid ∧ addr ≤ address ∧ address < addr + bytes
    · rw [if_pos here]
      obtain ⟨rfl, inside⟩ := here
      refine iff_of_true rfl (.inl ⟨?_, inside⟩)
      rw [count_self]
      exact Nat.succ_pos _
    · rw [if_neg here, consistent.mapped process living' address, or_iff_right]
      · refine exists_congr fun entry => and_congr_right fun live => ?_
        rw [usesOld entry.2 (old entry live), coversOld entry live]
      · rintro ⟨used, inside⟩
        by_cases same : process = pid
        · exact here ⟨same, inside⟩
        · rw [count_of_ne fun both => same both.2, unusedNew] at used
          cases used

/-- A process deletes an object that no other living process uses. -/
theorem Consistent.deleted (consistent : Consistent kernel state areas) {pid : Pid} {name : ν}
    {record : RecordId} {final : World ν} {areas' : List VmaId}
    (live : (name, record) ∈ state.world.store.sb.names)
    (alone : ∀ task ∈ (state.world.store.record record).taskList, task.pidNr ≠ pid →
      state.world.alive task.pidNr = false)
    (deleted : Deleted kernel state.world areas pid name record final areas') :
    Consistent kernel ⟨final, fun object process =>
      if object = record then 0 else state.uses object process⟩ areas' := by
  have apart : ∀ entry ∈ final.store.sb.names,
      entry ∈ state.world.store.sb.names ∧ entry.2 ≠ record := by
    intro entry member
    obtain ⟨old, ne⟩ := (deleted.names entry).mp member
    exact ⟨old, fun same =>
      ne (congrArg Prod.fst (consistent.catalogued.eq_of_record old live same))⟩
  have back : ∀ entry ∈ state.world.store.sb.names, entry.2 ≠ record →
      entry ∈ final.store.sb.names := by
    intro entry old ne
    refine (deleted.names entry).mpr ⟨old, fun same => ne ?_⟩
    exact congrArg Prod.snd (consistent.catalogued.eq_of_name old live same)
  have unusedByOthers : ∀ process, state.world.alive process = true → process ≠ pid →
      state.uses record process = 0 := by
    intro process living other
    rw [← (consistent.uses _ live process living).1, tasksOf, List.countP_eq_zero]
    intro task member same
    rw [decide_eq_true_eq] at same
    subst same
    rw [alone task member other] at living
    cases living
  refine ⟨deleted.layout, deleted.catalogued, ?_, ?_, ?_, ?_⟩
  · intro entry member
    obtain ⟨old, -⟩ := apart entry member
    have prime := congrArg NsRecord.primeSeg (deleted.records entry.2)
    show kernel.areaStart ≤ (final.store.record entry.2).primeSeg ∧
      (final.store.record entry.2).primeSeg < kernel.areaEnd
    dsimp only at prime
    rw [prime]
    exact consistent.prime entry old
  · intro entry member process living
    obtain ⟨old, ne⟩ := apart entry member
    have living' : final.alive process = true := living
    rw [deleted.alive] at living'
    have tasks := congrArg NsRecord.taskList (deleted.records entry.2)
    show tasksOf process (final.store.record entry.2).taskList =
      (if entry.2 = record then 0 else state.uses entry.2 process) ∧
        (if entry.2 = record then 0 else state.uses entry.2 process) ≤ 1
    dsimp only at tasks
    rw [tasks, if_neg ne]
    exact consistent.uses entry old process living'
  · intro object dead process
    show (if object = record then 0 else state.uses object process) = 0
    split
    · rfl
    · rename_i ne
      refine consistent.unused object (fun entry old same => ?_) process
      exact dead entry (back entry old (same.trans_ne ne)) same
  · intro process living address
    have living' : final.alive process = true := living
    rw [deleted.alive] at living'
    show (final.mapped process address).isSome ↔ ∃ entry ∈ final.store.sb.names,
      0 < (if entry.2 = record then 0 else state.uses entry.2 process) ∧
        Covers final.store areas' entry.2 address
    have others : (∃ entry ∈ final.store.sb.names,
        0 < (if entry.2 = record then 0 else state.uses entry.2 process) ∧
          Covers final.store areas' entry.2 address) ↔
        ∃ entry ∈ state.world.store.sb.names, entry.2 ≠ record ∧ 0 < state.uses entry.2 process ∧
          Covers state.world.store areas entry.2 address := by
      constructor
      · rintro ⟨entry, member, used, covered⟩
        obtain ⟨old, ne⟩ := apart entry member
        rw [if_neg ne] at used
        exact ⟨entry, old, ne, used, ((deleted.covers _ _).mp covered).2⟩
      · rintro ⟨entry, old, ne, used, covered⟩
        refine ⟨entry, back entry old ne, ?_, (deleted.covers _ _).mpr ⟨ne, covered⟩⟩
        rwa [if_neg ne]
    rw [others]
    by_cases here : process = pid ∧ Covers state.world.store areas record address
    · obtain ⟨rfl, covered⟩ := here
      rw [deleted.unmapped address covered]
      refine iff_of_false (by simp) ?_
      rintro ⟨entry, -, ne, -, covered'⟩
      exact ne (consistent.layout.eq_of_covers covered' covered)
    · rw [deleted.mapped process address here, consistent.mapped process living' address]
      refine exists_congr fun entry => and_congr_right fun old => ?_
      refine ⟨?_, And.right⟩
      rintro ⟨used, covered⟩
      refine ⟨?_, used, covered⟩
      intro same
      rw [same] at used covered
      refine here ⟨?_, covered⟩
      by_contra other
      rw [unusedByOthers process living' other] at used
      cases used

/-- A segment is allocated, and mapped in every living process that uses the object. -/
theorem Consistent.allocated (consistent : Consistent kernel state areas) {name : ν} {record : RecordId}
    {bytes addr mode : Nat} {refuses : Pid → Bool} {walked : Walk} {final : World ν}
    {areas' : List VmaId} (live : (name, record) ∈ state.world.store.sb.names)
    (passes : PassesDead state.world.alive (state.world.store.record record).taskList)
    (willing : ∀ task ∈ (state.world.store.record record).taskList,
      state.world.alive task.pidNr = true → refuses task.pidNr = false)
    (allocated : Allocated kernel state.world areas record bytes addr mode refuses walked final
      areas') : Consistent kernel ⟨final, state.uses⟩ areas' := by
  obtain ⟨walk, walks, -, reaches⟩ := walkTasks_passesDead _ refuses [] _ passes
    (fun _ member => nomatch member) willing
  obtain rfl := Option.some.inj (walks.symm.trans allocated.walk)
  refine consistent.kept allocated.layout allocated.catalogued allocated.names
    (fun object => ?_) ?_ consistent.unused ?_
  · have prime := congrArg NsRecord.primeSeg (allocated.records object)
    exact prime
  · intro entry live' process living
    rw [allocated.alive] at living
    by_cases here : entry.2 = record
    · rw [here, allocated.left, (reaches process living).1, ← here]
      exact consistent.uses entry live' process living
    · rw [allocated.others entry.2 here]
      exact consistent.uses entry live' process living
  · intro process living address
    rw [allocated.alive] at living
    have reached : process ∈ walk.visited ↔ 0 < state.uses record process := by
      rw [(reaches process living).2, (consistent.uses _ live process living).1]
    rw [allocated.mapped]
    simp only [allocated.covers]
    by_cases here : process ∈ walk.visited ∧ addr ≤ address ∧ address < addr + bytes
    · rw [if_pos here]
      exact iff_of_true rfl ⟨_, live, reached.mp here.1, .inr ⟨rfl, here.2⟩⟩
    · rw [if_neg here, consistent.mapped process living address]
      refine exists_congr fun entry => and_congr_right fun live' => and_congr_right fun used => ?_
      rw [or_iff_left]
      rintro ⟨same, inside⟩
      exact here ⟨reached.mpr (same ▸ used), inside⟩

/-- The end of an area is freed, and unmapped in every living process that uses the object. -/
theorem Consistent.freed (consistent : Consistent kernel state areas) {name : ν} {record : RecordId}
    {bytes addr : Nat} {walked : Walk} {final : World ν} {areas' : List VmaId}
    (live : (name, record) ∈ state.world.store.sb.names)
    (passes : PassesDead state.world.alive (state.world.store.record record).taskList)
    (inside : ∀ address, addr ≤ address → address < addr + bytes →
      Covers state.world.store areas record address)
    (freed : Freed kernel state.world areas record bytes addr walked final areas') :
    Consistent kernel ⟨final, state.uses⟩ areas' := by
  obtain ⟨walk, walks, -, reaches⟩ := walkTasks_passesDead _ (fun _ => false) [] _ passes
    (fun _ member => nomatch member) fun _ _ _ => rfl
  obtain rfl := Option.some.inj (walks.symm.trans freed.walk)
  refine consistent.kept freed.layout freed.catalogued freed.names (fun object => ?_) ?_
    consistent.unused ?_
  · have prime := congrArg NsRecord.primeSeg (freed.records object)
    exact prime
  · intro entry live' process living
    rw [freed.alive] at living
    by_cases here : entry.2 = record
    · rw [here, freed.left, (reaches process living).1, ← here]
      exact consistent.uses entry live' process living
    · rw [freed.others entry.2 here]
      exact consistent.uses entry live' process living
  · intro process living address
    rw [freed.alive] at living
    have reached : process ∈ walk.visited ↔ 0 < state.uses record process := by
      rw [(reaches process living).2, (consistent.uses _ live process living).1]
    rw [freed.mapped]
    simp only [freed.covers]
    by_cases cut : addr ≤ address ∧ address < addr + bytes
    · refine iff_of_false ?_ fun ⟨entry, _, _, _, kept⟩ => kept cut
      by_cases visited : process ∈ walk.visited
      · rw [if_pos ⟨visited, cut⟩]
        simp
      · rw [if_neg fun both => visited both.1, consistent.mapped process living address]
        rintro ⟨entry, live', used, covered⟩
        rw [consistent.layout.eq_of_covers covered (inside address cut.1 cut.2)] at used
        exact visited (reached.mpr used)
    · rw [if_neg fun both => cut both.2, consistent.mapped process living address]
      refine exists_congr fun entry => and_congr_right fun _ => and_congr_right fun _ => ?_
      rw [and_iff_left cut]

theorem tasksOf_filter {pid process : Pid} (apart : process ≠ pid) (tasks : List TaskPid) :
    tasksOf process (tasks.filter fun task => task.pidNr ≠ pid) = tasksOf process tasks := by
  rw [tasksOf, List.countP_filter]
  refine List.countP_congr fun task _ => ?_
  simp only [Bool.and_eq_true, decide_eq_true_eq, and_iff_left_iff_imp]
  rintro rfl
  exact apart

theorem survives_of_update {alive : Pid → Bool} {pid process : Pid}
    (living : Function.update alive pid false process = true) :
    process ≠ pid ∧ alive process = true := by
  by_cases same : process = pid
  · rw [same, Function.update_self] at living
    cases living
  · rw [Function.update_of_ne same] at living
    exact ⟨same, living⟩

/-- A process exits. -/
theorem Consistent.left (consistent : Consistent kernel state areas) {pid : Pid} {final : World ν}
    (left : Left state.world pid final)
    (alive : final.alive = Function.update state.world.alive pid false) :
    Consistent kernel
      ⟨final, fun object process => if process = pid then 0 else state.uses object process⟩
      areas := by
  have survives : ∀ process, final.alive process = true →
      process ≠ pid ∧ state.world.alive process = true := by
    rw [alive]
    exact fun process living => survives_of_update living
  refine consistent.kept (left.same.layout consistent.layout)
    (left.same.catalogued consistent.catalogued) (by rw [left.same.sb]) left.same.primeSeg ?_ ?_ ?_
  · intro entry live process living
    obtain ⟨apart, living⟩ := survives process living
    rw [if_neg apart, ← tasksOf_filter apart, left.others, tasksOf_filter apart]
    exact consistent.uses entry live process living
  · intro record dead process
    rw [consistent.unused record dead, ite_self]
  · intro process living address
    obtain ⟨apart, living⟩ := survives process living
    rw [left.mapped process apart, consistent.mapped process living]
    simp only [if_neg apart, left.same.covers]

/-- A process dies. -/
theorem Consistent.died (consistent : Consistent kernel state areas) (pid : Pid) :
    Consistent kernel ⟨state.world.die pid, state.uses⟩ areas := by
  exact consistent.kept consistent.layout consistent.catalogued rfl (fun _ => rfl)
    (fun entry live process living =>
      consistent.uses entry live process (survives_of_update living).2)
    consistent.unused fun process living => consistent.mapped process (survives_of_update living).2

variable [DecidableEq ν]

/-- The call stays away from the branches that break the sharing of objects. -/
def KeepsSharing (kernel : Kernel) (world : World ν) : Call ν → Prop
  | .create pid name size tooMany => FindsHole kernel world (.create pid name size tooMany)
  | .delete pid name => ∀ record, world.posNsSearch name = some record →
      ∀ task ∈ (world.store.record record).taskList, task.pidNr ≠ pid →
        world.alive task.pidNr = false
  | .map pid name tooMany => tooMany = false → ∀ record, world.posNsSearch name = some record →
      world.modeOf record pid ≠ 0 → taskOf pid (world.store.record record).taskList = none
  | .segAlloc pid name len tooMany refuses =>
      FindsHole kernel world (.segAlloc pid name len tooMany refuses) ∧
        (¬(len = 0 ∨ pageAlign len = 0 ∨ posAreaSize < pageAlign len ∨ tooMany = true) →
          ∀ record task, world.posNsSearch name = some record →
          taskOf pid (world.store.record record).taskList = some task →
            (world.store.record record).vmList ≠ [] ∧
            PassesDead world.alive (world.store.record record).taskList ∧
            ∀ task ∈ (world.store.record record).taskList,
              world.alive task.pidNr = true → refuses task.pidNr = false)
  | .segFree pid name addr len => ¬(addr % pageSize ≠ 0 ∨ pageAlign len = 0) →
      ∀ record task id prev, world.posNsSearch name = some record →
      taskOf pid (world.store.record record).taskList = some task →
      world.store.posFindVmaPrev addr = (some id, prev) → world.store.owner id = record →
      (world.store.record record).primeSeg ≠ addr →
        (world.store.lo id = addr → pageAlign len ≤ world.store.hi id - world.store.lo id) ∧
        (world.store.lo id < addr → world.store.hi id ≤ (addr + pageAlign len) % 2 ^ 64) ∧
        (addr + pageAlign len = world.store.hi id →
          PassesDead world.alive (world.store.record record).taskList)
  | _ => True

/-- The living processes have the areas of exactly the objects that they use mapped, and are in the task
lists of these once; walks that pass over dead entries only do not go wrong, and nobody keeps an object
that is deleted. -/
structure Shared (kernel : Kernel) (state : Watched ν) : Prop where
  mapped : ∀ entry ∈ state.world.store.sb.names, ∀ pid, state.world.alive pid = true →
    ∀ address, state.world.Contains entry.2 address →
      ((state.world.mapped pid address).isSome ↔ 0 < state.uses entry.2 pid)
  only : ∀ pid, state.world.alive pid = true → ∀ address,
    (state.world.mapped pid address).isSome → ∃ entry ∈ state.world.store.sb.names,
      0 < state.uses entry.2 pid ∧ state.world.Contains entry.2 address
  tasks : ∀ entry ∈ state.world.store.sb.names, ∀ pid, state.world.alive pid = true →
    tasksOf pid (state.world.store.record entry.2).taskList =
      if 0 < state.uses entry.2 pid then 1 else 0
  walks : ∀ entry ∈ state.world.store.sb.names,
    PassesDead state.world.alive (state.world.store.record entry.2).taskList →
      (walkTasks state.world.alive (fun _ => false) []
        (state.world.store.record entry.2).taskList).isSome
  deleted : ∀ pid name record final, state.world.posNsSearch name = some record →
    KeepsSharing kernel state.world (.delete pid name) →
      state.world.sysPosDelete kernel pid name = some (final, posNormal) →
        ∀ address, state.world.Contains record address →
          ∀ process, final.alive process = true → final.mapped process address = none

theorem Consistent.shared (consistent : Consistent kernel state areas) : Shared kernel state where
  mapped entry live pid living address contained := by
    have covered : Covers state.world.store areas entry.2 address :=
      (covers_iff_of_listed (consistent.catalogued.listed entry live) address).mpr contained
    rw [consistent.mapped pid living address]
    constructor
    · rintro ⟨other, live', used, covered'⟩
      rwa [consistent.layout.eq_of_covers covered covered']
    · exact fun used => ⟨entry, live, used, covered⟩
  only pid living address mapped := by
    obtain ⟨entry, live, used, covered⟩ := (consistent.mapped pid living address).mp mapped
    exact ⟨entry, live, used,
      (covers_iff_of_listed (consistent.catalogued.listed entry live) address).mp covered⟩
  tasks entry live pid living := by
    obtain ⟨counted, once⟩ := consistent.uses entry live pid living
    rw [counted]
    split <;> omega
  walks entry live passes := by
    obtain ⟨walk, walked, -⟩ := walkTasks_passesDead _ (fun _ => false) [] _ passes
      (fun _ member => nomatch member) fun _ _ _ => rfl
    rw [walked]
    rfl
  deleted pid name record final search keeps called address contained process living := by
    have live := Catalogued.mem_of_lookup search
    have covered : Covers state.world.store areas record address :=
      (covers_iff_of_listed (consistent.catalogued.listed _ live) address).mpr contained
    rcases sysPosDelete_spec consistent.layout consistent.catalogued called with
      ⟨missing, -⟩ | ⟨other, areas', search', -, deleted⟩
    · rw [missing] at search
      cases search
    · obtain rfl := Option.some.inj (search.symm.trans search')
      have kept := consistent.deleted live (keeps record search) deleted
      by_contra still
      obtain ⟨entry, live', used, covered'⟩ :=
        (kept.mapped process living address).mp (Option.isSome_iff_ne_none.mpr still)
      obtain ⟨ne, old⟩ := (deleted.covers _ _).mp covered'
      exact ne (consistent.layout.eq_of_covers old covered)

/-- A call that stays away from the defects keeps the sharing. -/
theorem Consistent.step (consistent : Consistent kernel state areas) {call : Call ν}
    (keeps : KeepsSharing kernel state.world call) (step : state.step kernel junk call = some next) :
    ∃ areas', Consistent kernel next areas' := by
  obtain ⟨final, result, called, rfl⟩ := step_eq_some.mp step
  cases call with
  | create pid name size tooMany =>
      rcases sysPosCreate_spec consistent.layout consistent.catalogued keeps called with
        ⟨rfl, error⟩ | ⟨success, few, new, areas', created⟩
      · refine ⟨areas, ?_⟩
        rw [usesAfter, if_pos error]
        exact consistent
      · refine ⟨areas', ?_⟩
        rw [usesAfter, if_neg success]
        exact consistent.created created (keeps few new).1
  | delete pid name =>
      rcases sysPosDelete_spec consistent.layout consistent.catalogued called with
        ⟨missing, rfl, -⟩ | ⟨record, areas', search, success, deleted⟩
      · refine ⟨areas, ?_⟩
        rw [usesAfter, missing]
        exact consistent
      · refine ⟨areas', ?_⟩
        rw [usesAfter, search]
        simp only [success, and_true]
        exact consistent.deleted (Catalogued.mem_of_lookup search) (keeps record search) deleted
  | map pid name tooMany =>
      rcases sysPosMap_spec consistent.catalogued called with
        ⟨rfl, error⟩ | ⟨record, search, prime, allowed, mapped⟩
      · refine ⟨areas, ?_⟩
        rw [usesAfter]
        cases state.world.posNsSearch name with
        | none => exact consistent
        | some record =>
            dsimp only
            rw [if_pos error]
            exact consistent
      · refine ⟨areas, ?_⟩
        have live := Catalogued.mem_of_lookup search
        have noError := kernel.not_mapError (consistent.prime _ live).1 (consistent.prime _ live).2
        rw [← prime] at noError
        have few : tooMany = false := by
          cases tooMany with
          | false => rfl
          | true =>
              have same := congrArg Prod.snd (Option.some.inj called)
              exact absurd (.inl same.symm) noError
        rw [usesAfter, search]
        dsimp only
        rw [if_neg noError]
        exact consistent.mapAdded live (keeps few record search allowed) mapped
  | unmap pid name =>
      rcases sysPosUnmap_spec consistent.catalogued called with
        ⟨rfl, error, -⟩ | ⟨record, search, success, unmapped⟩
      · refine ⟨areas, ?_⟩
        rw [usesAfter]
        cases state.world.posNsSearch name with
        | none => exact consistent
        | some record =>
            dsimp only
            rw [if_neg (by rw [error]; decide)]
            exact consistent
      · refine ⟨areas, ?_⟩
        rw [usesAfter, search]
        dsimp only
        rw [if_pos success]
        exact consistent.unmapped (Catalogued.mem_of_lookup search) unmapped
  | segAlloc pid name len tooMany refuses =>
      rcases sysPosSegAlloc_spec consistent.layout consistent.catalogued
        (fun late record task search member =>
          ⟨(keeps.2 late record task search member).1, keeps.1 late record task search member⟩)
        called with
        ⟨rfl, -⟩ | ⟨record, task, addr, prev, store, walked, areas', late, search, member, -, -, -,
          allocated, -⟩
      · exact ⟨areas, consistent⟩
      · obtain ⟨-, passes, willing⟩ := keeps.2 late record task search member
        exact ⟨areas', consistent.allocated (Catalogued.mem_of_lookup search) passes willing allocated⟩
  | segFree pid name addr len =>
      rcases sysPosSegFree_spec consistent.layout consistent.catalogued
        (fun late record task id prev search member found owned notPrime =>
          have kept := keeps late record task id prev search member found owned notPrime
          ⟨kept.1, kept.2.1⟩) called with
        ⟨rfl, -⟩ | ⟨record, task, id, prev, walked, areas', -, late, search, member, found, inside,
          owned, notPrime, low, stop, freed⟩
      · exact ⟨areas, consistent⟩
      · have passes := (keeps late record task id prev search member found owned notPrime).2.2 stop
        refine ⟨areas', consistent.freed (Catalogued.mem_of_lookup search) passes ?_ freed⟩
        exact fun address above below => ⟨id, inside, owned, low.trans above, stop ▸ below⟩
  | exit pid =>
      obtain ⟨left, exited, same⟩ := Option.map_eq_some_iff.mp called
      obtain ⟨rfl, -⟩ := Prod.mk.inj same
      obtain ⟨left, alive⟩ := posProcessExit_spec exited
      exact ⟨areas, consistent.left left alive⟩
  | die pid =>
      obtain ⟨rfl, -⟩ := Prod.mk.inj (Option.some.inj called)
      exact ⟨areas, consistent.died pid⟩

end Watched

end StorageStack.Pos
