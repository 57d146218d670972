import StorageStack.F2fs.AllocationSafety

/-!
# The choice of a victim

`get_victim_by_default` searches a dirty list for the segment, or the section, that is cheapest to
clean or to reuse.  It starts behind the victim of an earlier call, goes on from the start of the
list once, and stops when it has seen enough.
-/

namespace StorageStack
namespace F2fs
namespace VictimSelection

/-- `BG_GC` and `FG_GC`. -/
inductive GcType where
  | bg
  | fg
  deriving DecidableEq, Repr

/-- `GC_CB` and `GC_GREEDY`. -/
inductive GcMode where
  | cb
  | greedy
  deriving DecidableEq, Repr

/-- `UINT_MAX`. -/
def uintMax : Nat := 2 ^ 32 - 1

/-- `min_mtime` and `max_mtime` of `struct sit_info`. -/
structure Mtimes where
  minMtime : Nat
  maxMtime : Nat
  deriving DecidableEq, Repr

/-- The segment manager with the fields only the search uses; `lastVictim` of the manager is the
position of the greedy searches. -/
structure GcState where
  manager : State
  /-- `last_victim[GC_CB]`. -/
  lastVictimCb : Nat
  minMtime : Nat

/-- `last_victim[gc_mode]`. -/
def GcState.lastVictim (gc : GcState) : GcMode → Nat
  | .cb => gc.lastVictimCb
  | .greedy => gc.manager.lastVictim

def GcState.setLastVictim (gc : GcState) (mode : GcMode) (segno : Nat) : GcState :=
  match mode with
  | .cb => { gc with lastVictimCb := segno }
  | .greedy => { gc with manager := { gc.manager with lastVictim := segno } }

def GcState.mtimes (gc : GcState) : Mtimes := ⟨gc.minMtime, gc.manager.sit.maxMtime⟩

def GcState.setMtimes (gc : GcState) (mtimes : Mtimes) : GcState :=
  { gc with
    minMtime := mtimes.minMtime
    manager := { gc.manager with sit := { gc.manager.sit with maxMtime := mtimes.maxMtime } } }

/-- `gc_thread->gc_idle` when there is a thread; `select_gc_type`. -/
def selectGcType (gcIdle : Option Nat) (gcType : GcType) : GcMode :=
  match gcIdle with
  | some 1 => .cb
  | some 2 => .greedy
  | _ => if gcType = .bg then .cb else .greedy

/-- The fields of `struct victim_sel_policy` that `select_policy` fixes. -/
structure Policy where
  allocMode : AllocType
  gcMode : GcMode
  dirtySegmap : BitMap
  maxSearch : Nat
  ofsUnit : Nat

/-- `select_policy`; the first offset is `last_victim[gc_mode]`. -/
def selectPolicy (sbi : Sbi) (gcIdle : Option Nat) (gcType : GcType) (type : DirtyType)
    (allocMode : AllocType) (dirty : DirtySeglist) : Policy :=
  match allocMode with
  | .ssr => ⟨.ssr, .greedy, dirty.dirtySegmap type, min (dirty.nrDirty type) sbi.maxVictimSearch, 1⟩
  | .lfs => ⟨.lfs, selectGcType gcIdle gcType, dirty.dirtySegmap .dirty,
      min (dirty.nrDirty .dirty) sbi.maxVictimSearch, sbi.segsPerSec⟩

/-- `get_max_cost`. -/
def Policy.maxCost (sbi : Sbi) (policy : Policy) : Nat :=
  match policy.allocMode, policy.gcMode with
  | .ssr, _ => sbi.blocksPerSeg
  | .lfs, .greedy => sbi.blocksPerSeg * policy.ofsUnit
  | .lfs, .cb => uintMax

/-- `check_bg_victims`: a section that the background has chosen and nothing uses. -/
def checkBgVictims (sbi : Sbi) (state : State) : Option Nat :=
  (state.dirty.victimSecmap.setBits sbi.totalSections).find? fun secno =>
    !secUsageCheck sbi state secno

/-! ## Costs -/

/-- The mean modification time of the section of a segment, a 64-bit word. -/
def sectionMtime (sbi : Sbi) (state : State) (segno : Nat) : Nat :=
  (∑ index ∈ Finset.range sbi.segsPerSec,
    (state.sit.sentries (sbi.getSecno segno * sbi.segsPerSec + index)).mtime) % 2 ^ 64 /
      sbi.segsPerSec

/-- The range of modification times with one more time in it. -/
def Mtimes.widen (mtimes : Mtimes) (mtime : Nat) : Mtimes :=
  ⟨min mtimes.minMtime mtime, max mtimes.maxMtime mtime⟩

/-- `age`, an `unsigned char`. -/
def Mtimes.age (mtimes : Mtimes) (mtime : Nat) : Nat :=
  if mtimes.maxMtime = mtimes.minMtime then 0
  else
    (100 + 2 ^ 64 - 100 * (mtime - mtimes.minMtime) % 2 ^ 64 /
      (mtimes.maxMtime - mtimes.minMtime)) % 2 ^ 8

/-- `u`, an `unsigned char`. -/
def utilization (sbi : Sbi) (state : State) (segno : Nat) : Nat :=
  ((getValidBlocks sbi state segno sbi.segsPerSec / sbi.segsPerSec * 100) % 2 ^ 32) >>>
    sbi.logBlocksPerSeg % 2 ^ 8

/-- `get_cb_cost`, with the range of modification times it leaves. -/
def getCbCost (sbi : Sbi) (state : State) (mtimes : Mtimes) (segno : Nat) : Nat × Mtimes :=
  let mtime := sectionMtime sbi state segno
  let u : Int := utilization sbi state segno
  let mtimes := mtimes.widen mtime
  let benefit := Int.tdiv (100 * (100 - u) * mtimes.age mtime) (100 + u)
  (((uintMax : Int) - benefit).toNat % 2 ^ 32, mtimes)

/-- `get_gc_cost`. -/
def Policy.getGcCost (policy : Policy) (sbi : Sbi) (state : State) (mtimes : Mtimes)
    (segno : Nat) : Nat × Mtimes :=
  match policy.allocMode, policy.gcMode with
  | .ssr, _ => ((state.sit.sentries segno).ckptValidBlocks, mtimes)
  | .lfs, .greedy => (getValidBlocks sbi state segno sbi.segsPerSec, mtimes)
  | .lfs, .cb => getCbCost sbi state mtimes segno

/-! ## The search -/

/-- A segment whose cost the search computed, with the modification times it knew then. -/
structure Seen where
  segno : Nat
  mtimes : Mtimes
  cost : Nat
  deriving DecidableEq, Repr

/-- The variables of the loop, with what it has looked at. -/
structure Search where
  mtimes : Mtimes
  /-- `last_victim[gc_mode]`. -/
  lastVictim : Nat
  offset : Nat
  minSegno : Option Nat
  minCost : Nat
  nsearched : Nat
  /-- The segments found in this pass and in the earlier ones, latest first. -/
  pass : List Nat
  earlier : List (List Nat)
  seen : List Seen
  deriving DecidableEq, Repr

/-- What one round of the loop leaves. -/
inductive Turn where
  | again (search : Search)
  | stop (search : Search)

/-- The rest of a round with the cost of a segment. -/
def Search.weigh (policy : Policy) (maxCost segno cost : Nat) (search : Search) : Turn :=
  if search.minCost ≤ cost ∧ cost = maxCost then .again search
  else
    let search :=
      if cost < search.minCost then { search with minSegno := some segno, minCost := cost }
      else search
    if policy.maxSearch ≤ search.nsearched then
      .stop { search with nsearched := search.nsearched + 1, lastVictim := segno }
    else .again { search with nsearched := search.nsearched + 1 }

/-- The segments that the search passes by. -/
def skipped (sbi : Sbi) (state : State) (gcType : GcType) (segno : Nat) : Bool :=
  secUsageCheck sbi state (sbi.getSecno segno) ||
    (gcType = .bg && state.dirty.victimSecmap (sbi.getSecno segno))

/-- A segment was found: the next offset is behind its unit. -/
def Search.found (policy : Policy) (segno : Nat) (search : Search) : Search :=
  { search with
    offset :=
      if 1 < policy.ofsUnit then segno + policy.ofsUnit - segno % policy.ofsUnit
      else segno + policy.ofsUnit
    pass := segno :: search.pass }

/-- One round of the loop. -/
def Search.turn (sbi : Sbi) (state : State) (gcType : GcType) (policy : Policy)
    (search : Search) : Turn :=
  let segno := policy.dirtySegmap.findNextBit sbi.mainSegments search.offset
  if sbi.mainSegments ≤ segno then
    if search.lastVictim ≠ 0 then
      .again
        { search with
          lastVictim := 0
          offset := 0
          pass := []
          earlier := search.pass :: search.earlier }
    else .stop search
  else if skipped sbi state gcType segno then .again (search.found policy segno)
  else
    let (cost, mtimes) := policy.getGcCost sbi state search.mtimes segno
    { search.found policy segno with
      mtimes := mtimes
      seen := ⟨segno, search.mtimes, cost⟩ :: search.seen }.weigh policy (policy.maxCost sbi) segno
        cost

/-- The loop. -/
def Search.loop (sbi : Sbi) (state : State) (gcType : GcType) (policy : Policy) :
    (fuel : Nat) → Search → Option Search
  | 0, _ => none
  | fuel + 1, search =>
      match search.turn sbi state gcType policy with
      | .stop search => some search
      | .again search => search.loop sbi state gcType policy fuel

/-- The state before the first round. -/
def Search.start (sbi : Sbi) (policy : Policy) (mtimes : Mtimes) (lastVictim : Nat) : Search where
  mtimes := mtimes
  lastVictim := lastVictim
  offset := lastVictim
  minSegno := none
  minCost := policy.maxCost sbi
  nsearched := 0
  pass := []
  earlier := []
  seen := []

/-- What a call of `get_victim_by_default` leaves, with what the search has looked at. -/
structure Selection where
  gc : GcState
  /-- `*result` when the call returns 1. -/
  result : Option Nat
  /-- The victim is one of the background's. -/
  shortcut : Bool
  passes : List (List Nat)
  seen : List Seen

/-- The marks on the section of a victim. -/
def GcState.mark (gc : GcState) (gcType : GcType) (allocMode : AllocType) (secno : Nat) : GcState :=
  match allocMode, gcType with
  | .ssr, _ => gc
  | .lfs, .fg => { gc with manager := { gc.manager with curVictimSec := secno } }
  | .lfs, .bg =>
      { gc with
        manager :=
          { gc.manager with
            dirty :=
              { gc.manager.dirty with victimSecmap := gc.manager.dirty.victimSecmap.set secno } } }

/-- `get_victim_by_default`. -/
def getVictimByDefault (sbi : Sbi) (gcIdle : Option Nat) (gcType : GcType) (type : DirtyType)
    (allocMode : AllocType) (fuel : Nat) (gc : GcState) : Option Selection :=
  let policy := selectPolicy sbi gcIdle gcType type allocMode gc.manager.dirty
  match if allocMode = .lfs ∧ gcType = .fg then checkBgVictims sbi gc.manager else none with
  | some secno =>
      let dirty := gc.manager.dirty
      let cleared : GcState :=
        { gc with
          manager :=
            { gc.manager with
              dirty := { dirty with victimSecmap := dirty.victimSecmap.clear secno } } }
      some ⟨cleared.mark gcType allocMode (sbi.getSecno (secno * sbi.segsPerSec)),
        some (secno * sbi.segsPerSec / policy.ofsUnit * policy.ofsUnit), true, [], []⟩
  | none =>
      (Search.start sbi policy gc.mtimes (gc.lastVictim policy.gcMode)).loop sbi gc.manager gcType
          policy fuel |>.map fun search =>
        let gc := (gc.setMtimes search.mtimes).setLastVictim policy.gcMode search.lastVictim
        match search.minSegno with
        | none => ⟨gc, none, false, search.pass :: search.earlier, search.seen⟩
        | some segno =>
            ⟨gc.mark gcType allocMode (sbi.getSecno segno),
              some (segno / policy.ofsUnit * policy.ofsUnit), false,
              search.pass :: search.earlier, search.seen⟩

/-! ## What a round keeps -/

variable {sbi : Sbi} {state : State} {gcType : GcType} {policy : Policy} {search next : Search}

/-- The passes go up through the dirty list; this one has met a segment of every unit between the
position of its start and its offset. -/
structure Walked (sbi : Sbi) (policy : Policy) (search : Search) : Prop where
  rounds : search.earlier = [] ∨ search.earlier.length = 1 ∧ search.lastVictim = 0
  ordered : ∀ pass ∈ search.pass :: search.earlier, pass.Pairwise (· > ·)
  inMap : ∀ pass ∈ search.pass :: search.earlier, ∀ segno ∈ pass,
    segno < sbi.mainSegments ∧ policy.dirtySegmap segno = true
  behind : ∀ segno ∈ search.pass, segno < search.offset
  covered : ∀ segno < sbi.mainSegments, policy.dirtySegmap segno = true →
    search.lastVictim ≤ segno → segno < search.offset →
      ∃ other ∈ search.pass, other / policy.ofsUnit = segno / policy.ofsUnit

/-- A segment the search may take, with its cost. -/
structure Candidate (sbi : Sbi) (state : State) (gcType : GcType) (policy : Policy) (seen : Seen) :
    Prop where
  inMap : seen.segno < sbi.mainSegments ∧ policy.dirtySegmap seen.segno = true
  taken : skipped sbi state gcType seen.segno = false
  cost : seen.cost = (policy.getGcCost sbi state seen.mtimes seen.segno).1

/-- The choice so far is the cheapest of the candidates. -/
structure Weighed (sbi : Sbi) (state : State) (gcType : GcType) (policy : Policy)
    (search : Search) : Prop where
  each : ∀ segno ∈ search.pass, skipped sbi state gcType segno = true ∨
    ∃ seen ∈ search.seen, seen.segno = segno
  candidates : ∀ seen ∈ search.seen, Candidate sbi state gcType policy seen
  least : ∀ seen ∈ search.seen, search.minCost ≤ seen.cost
  unchosen : search.minSegno = none → search.minCost = policy.maxCost sbi
  chosen : ∀ segno, search.minSegno = some segno → search.minCost < policy.maxCost sbi ∧
    ∃ seen ∈ search.seen, seen.segno = segno ∧ seen.cost = search.minCost

theorem found_offset (unit_pos : 0 < policy.ofsUnit) (segno : Nat) (search : Search) :
    (search.found policy segno).offset = (segno / policy.ofsUnit + 1) * policy.ofsUnit := by
  have parts := Nat.div_add_mod segno policy.ofsUnit
  simp only [Search.found]
  split
  · rw [Nat.add_mul, Nat.one_mul, Nat.mul_comm]
    omega
  · have unit : policy.ofsUnit = 1 := by omega
    simp [unit]

theorem lt_found_offset (unit_pos : 0 < policy.ofsUnit) (segno : Nat) (search : Search) :
    segno < (search.found policy segno).offset := by
  rw [found_offset unit_pos, ← Nat.div_lt_iff_lt_mul unit_pos]
  exact Nat.lt_succ_self _

theorem Walked.found (unit_pos : 0 < policy.ofsUnit) (walked : Walked sbi policy search)
    {segno : Nat} (next_eq : policy.dirtySegmap.findNextBit sbi.mainSegments search.offset = segno)
    (inMain : segno < sbi.mainSegments) : Walked sbi policy (search.found policy segno) := by
  have isSet : policy.dirtySegmap segno = true := by
    subst next_eq
    exact BitMap.findNext_found inMain
  have later : search.offset ≤ segno := by
    subst next_eq
    exact BitMap.le_findNext_of_found inMain
  refine ⟨walked.rounds, ?_, ?_, ?_, ?_⟩
  · rintro pass (_ | ⟨_, mem⟩)
    · apply List.pairwise_cons.2
      exact ⟨fun other mem => Nat.lt_of_lt_of_le (walked.behind other mem) later,
        walked.ordered _ List.mem_cons_self⟩
    · exact walked.ordered pass (List.mem_cons_of_mem _ mem)
  · rintro pass (_ | ⟨_, mem⟩)
    · rintro other (_ | ⟨_, mem⟩)
      · exact ⟨inMain, isSet⟩
      · exact walked.inMap _ List.mem_cons_self other mem
    · exact walked.inMap pass (List.mem_cons_of_mem _ mem)
  · rintro other (_ | ⟨_, mem⟩)
    · exact lt_found_offset unit_pos segno search
    · have := walked.behind other mem
      have := lt_found_offset unit_pos segno search
      omega
  · intro other inside dirty from_start before
    rcases Nat.lt_or_ge other search.offset with earlier | notEarlier
    · obtain ⟨met, mem, same⟩ := walked.covered other inside dirty from_start earlier
      exact ⟨met, List.mem_cons_of_mem _ mem, same⟩
    · have after : segno ≤ other := by
        by_contra between
        exact BitMap.findNext_skipped notEarlier (next_eq ▸ Nat.lt_of_not_le between) dirty
      refine ⟨segno, List.mem_cons_self, ?_⟩
      rw [found_offset unit_pos, ← Nat.div_lt_iff_lt_mul unit_pos] at before
      have := Nat.div_le_div_right (c := policy.ofsUnit) after
      omega

theorem Walked.wrap (walked : Walked sbi policy search) (later : search.lastVictim ≠ 0) :
    Walked sbi policy { search with
      lastVictim := 0
      offset := 0
      pass := []
      earlier := search.pass :: search.earlier } := by
  refine ⟨.inr ⟨?_, rfl⟩, ?_, ?_, by simp, by simp⟩
  · rcases walked.rounds with first | ⟨-, zero⟩
    · simp [first]
    · exact absurd zero later
  · rintro pass (_ | ⟨_, mem⟩)
    · exact List.Pairwise.nil
    · exact walked.ordered pass mem
  · rintro pass (_ | ⟨_, mem⟩)
    · simp
    · exact walked.inMap pass mem

theorem Walked.of_eq (walked : Walked sbi policy search) (pass : next.pass = search.pass)
    (earlier : next.earlier = search.earlier) (offset : next.offset = search.offset)
    (lastVictim : next.lastVictim = search.lastVictim) : Walked sbi policy next := by
  constructor
  · rw [earlier, lastVictim]
    exact walked.rounds
  · rw [pass, earlier]
    exact walked.ordered
  · rw [pass, earlier]
    exact walked.inMap
  · rw [pass, offset]
    exact walked.behind
  · rw [pass, offset, lastVictim]
    exact walked.covered

theorem Weighed.skip (weighed : Weighed sbi state gcType policy search) {segno : Nat}
    (isSkipped : skipped sbi state gcType segno = true) :
    Weighed sbi state gcType policy (search.found policy segno) := by
  refine ⟨?_, weighed.candidates, weighed.least, weighed.unchosen, weighed.chosen⟩
  rintro other (_ | ⟨_, mem⟩)
  · exact .inl isSkipped
  · exact weighed.each other mem

/-- A further candidate before it is compared with the best so far. -/
structure Added (sbi : Sbi) (state : State) (gcType : GcType) (policy : Policy) (seen : Seen)
    (search : Search) : Prop where
  each : ∀ segno ∈ search.pass, skipped sbi state gcType segno = true ∨
    ∃ seen ∈ search.seen, seen.segno = segno
  candidates : ∀ seen ∈ search.seen, Candidate sbi state gcType policy seen
  mem : seen ∈ search.seen
  least : ∀ other ∈ search.seen, other ≠ seen → search.minCost ≤ other.cost
  unchosen : search.minSegno = none → search.minCost = policy.maxCost sbi
  chosen : ∀ segno, search.minSegno = some segno → search.minCost < policy.maxCost sbi ∧
    ∃ seen ∈ search.seen, seen.segno = segno ∧ seen.cost = search.minCost

theorem Added.dearer {seen : Seen} (added : Added sbi state gcType policy seen search)
    (dear : search.minCost ≤ seen.cost) : Weighed sbi state gcType policy search := by
  refine ⟨added.each, added.candidates, ?_, added.unchosen, added.chosen⟩
  intro other mem
  rcases eq_or_ne other seen with rfl | differ
  · exact dear
  · exact added.least other mem differ

theorem Added.cheaper {seen : Seen} (added : Added sbi state gcType policy seen search)
    (cheap : seen.cost < search.minCost) : Weighed sbi state gcType policy
      { search with minSegno := some seen.segno, minCost := seen.cost } := by
  have minCost_le : search.minCost ≤ policy.maxCost sbi := by
    cases chosen : search.minSegno with
    | none => exact (added.unchosen chosen).le
    | some segno => exact (added.chosen segno chosen).1.le
  refine ⟨added.each, added.candidates, ?_, ?_, ?_⟩
  · intro other mem
    rcases eq_or_ne other seen with rfl | differ
    · exact Nat.le_refl _
    · exact Nat.le_trans cheap.le (added.least other mem differ)
  · intro impossible
    cases impossible
  · intro segno same
    obtain rfl : seen.segno = segno := Option.some.inj same
    exact ⟨Nat.lt_of_lt_of_le cheap minCost_le, seen, added.mem, rfl, rfl⟩

theorem Weighed.add (weighed : Weighed sbi state gcType policy search) {segno : Nat}
    (inMap : segno < sbi.mainSegments ∧ policy.dirtySegmap segno = true)
    (taken : skipped sbi state gcType segno = false) (mtimes : Mtimes) :
    let seen : Seen := ⟨segno, search.mtimes, (policy.getGcCost sbi state search.mtimes segno).1⟩
    Added sbi state gcType policy seen { search.found policy segno with
      mtimes := mtimes
      seen := seen :: search.seen } := by
  intro seen
  refine ⟨?_, ?_, List.mem_cons_self, ?_, weighed.unchosen, ?_⟩
  · rintro other (_ | ⟨_, mem⟩)
    · exact .inr ⟨seen, List.mem_cons_self, rfl⟩
    · rcases weighed.each other mem with isSkipped | ⟨met, mem, same⟩
      · exact .inl isSkipped
      · exact .inr ⟨met, List.mem_cons_of_mem _ mem, same⟩
  · rintro other (_ | ⟨_, mem⟩)
    · exact ⟨inMap, taken, rfl⟩
    · exact weighed.candidates other mem
  · rintro other (_ | ⟨_, mem⟩) differ
    · exact absurd rfl differ
    · exact weighed.least other mem
  · intro chosen same
    obtain ⟨below, met, mem, parts⟩ := weighed.chosen chosen same
    exact ⟨below, met, List.mem_cons_of_mem _ mem, parts⟩

/-! ## The end of the search -/

/-- The rounds that are left. -/
def Search.left (sbi : Sbi) (search : Search) : Nat :=
  (if search.lastVictim = 0 then 0 else sbi.mainSegments + 1) +
    (sbi.mainSegments - search.offset)

theorem left_lt (search : Search) : search.left sbi < 2 * sbi.mainSegments + 2 := by
  rw [Search.left]
  split
  · omega
  · omega

theorem Walked.length_le (walked : Walked sbi policy search) : search.earlier.length ≤ 1 := by
  rcases walked.rounds with first | ⟨second, -⟩
  · simp [first]
  · exact second.le

/-- Comparing a candidate with the best so far leaves the search weighed, and when it stops there
is a choice. -/
theorem Added.weigh {seen : Seen} (added : Added sbi state gcType policy seen search)
    (bounded : seen.cost ≤ policy.maxCost sbi) :
    (∃ after, search.weigh policy (policy.maxCost sbi) seen.segno seen.cost = .again after ∧
      Weighed sbi state gcType policy after ∧ after.pass = search.pass ∧
      after.earlier = search.earlier ∧ after.offset = search.offset ∧
      after.lastVictim = search.lastVictim) ∨
    ∃ after, search.weigh policy (policy.maxCost sbi) seen.segno seen.cost = .stop after ∧
      Weighed sbi state gcType policy after ∧ after.pass = search.pass ∧
      after.earlier = search.earlier ∧ after.minSegno ≠ none := by
  rcases Nat.lt_or_ge seen.cost search.minCost with cheap | dear
  · have weighed := added.cheaper cheap
    rw [Search.weigh, if_neg (by omega)]
    simp only [if_pos cheap]
    split
    · right
      exact ⟨_, rfl, ⟨weighed.each, weighed.candidates, weighed.least, weighed.unchosen,
        weighed.chosen⟩, rfl, rfl, by simp⟩
    · left
      exact ⟨_, rfl, ⟨weighed.each, weighed.candidates, weighed.least, weighed.unchosen,
        weighed.chosen⟩, rfl, rfl, rfl, rfl⟩
  · have weighed := added.dearer dear
    rw [Search.weigh]
    split
    · left
      exact ⟨_, rfl, weighed, rfl, rfl, rfl, rfl⟩
    next counted =>
    simp only [if_neg (Nat.not_lt.2 dear)]
    split
    · right
      refine ⟨_, rfl, ⟨weighed.each, weighed.candidates, weighed.least, weighed.unchosen,
        weighed.chosen⟩, rfl, rfl, ?_⟩
      -- without a choice the cost would be the largest one
      intro unchosen
      have := weighed.unchosen unchosen
      omega
    · left
      exact ⟨_, rfl, ⟨weighed.each, weighed.candidates, weighed.least, weighed.unchosen,
        weighed.chosen⟩, rfl, rfl, rfl, rfl⟩

theorem secno_lt {segno : Nat} (inMain : segno < sbi.mainSegments) :
    sbi.getSecno segno < sbi.totalSections := by
  rw [Sbi.getSecno, Nat.div_lt_iff_lt_mul sbi.segsPerSec_pos, ← sbi.main_eq]
  exact inMain

/-- What a call promises about its victim.  Costs are those the search computed when it came to a
candidate; only the costs of `GC_CB` change during a search. -/
structure Sound (sbi : Sbi) (gcType : GcType) (policy : Policy) (gc : GcState)
    (selection : Selection) : Prop where
  passes : selection.passes.length ≤ 2 ∧ ∀ pass ∈ selection.passes, pass.Pairwise (· > ·)
  candidates : ∀ seen ∈ selection.seen, Candidate sbi gc.manager gcType policy seen
  shortcut : selection.shortcut = true → gcType = .fg ∧ policy.allocMode = .lfs ∧
    ∃ secno < sbi.totalSections, selection.result = some (secno * sbi.segsPerSec) ∧
      gc.manager.dirty.victimSecmap secno = true ∧ secUsageCheck sbi gc.manager secno = false
  first : ∀ segno, selection.result = some segno →
    policy.ofsUnit ∣ segno ∧ secUsageCheck sbi gc.manager (sbi.getSecno segno) = false
  fresh : ∀ segno, selection.result = some segno → gcType = .bg →
    gc.manager.dirty.victimSecmap (sbi.getSecno segno) = false
  cheapest : ∀ segno, selection.result = some segno → selection.shortcut = false →
    ∃ seen ∈ selection.seen, seen.segno / policy.ofsUnit = segno / policy.ofsUnit ∧
      seen.cost < policy.maxCost sbi ∧ ∀ other ∈ selection.seen, seen.cost ≤ other.cost
  room : ∀ segno, selection.result = some segno → policy.allocMode = .ssr →
    ∃ offset < sbi.blocksPerSeg, (gc.manager.sit.sentries segno).curValidMap offset = false ∧
      (gc.manager.sit.sentries segno).ckptValidMap offset = false
  complete : selection.result = none → ∀ segno < sbi.mainSegments,
    policy.dirtySegmap segno = true → skipped sbi gc.manager gcType segno = false →
      ∃ seen ∈ selection.seen, seen.segno / policy.ofsUnit = segno / policy.ofsUnit ∧
        policy.maxCost sbi ≤ (policy.getGcCost sbi gc.manager seen.mtimes segno).1

variable {gcIdle : Option Nat} {type : DirtyType} {allocMode : AllocType} {gc : GcState}

end VictimSelection
end F2fs
end StorageStack
