import StorageStack.F2fs.Mount

/-!
# The free maps and their counters

The section map summarizes the segment map, and both maps have counters of their free entries.
`get_new_segment` relies on them: with a free section its search ends at a free segment.
-/

namespace StorageStack
namespace F2fs

variable {sbi : Sbi} {free : FreeSegmap}

/-- The number of clear bits below `size`. -/
def clearCount (map : BitMap) (size : Nat) : Nat := Nat.count (fun bit => map bit = false) size

theorem clearCount_eq (map : BitMap) (size : Nat) :
    clearCount map size + map.popCount size = size := by
  induction size with
  | zero => rfl
  | succ size ih =>
      rw [BitMap.popCount_succ, clearCount, Nat.count_succ, ← clearCount]
      cases map size <;> simp <;> omega

/-- The counters and the section map agree with the segment map. -/
structure FreeCounted (sbi : Sbi) (free : FreeSegmap) : Prop where
  segments : free.freeSegments = clearCount free.freeSegmap sbi.mainSegments
  sections : free.freeSections = clearCount free.freeSecmap sbi.totalSections
  summary : ∀ secno < sbi.totalSections, free.freeSecmap secno = false ↔
    ∀ segno, segno / sbi.segsPerSec = secno → free.freeSegmap segno = false

/-- The search of `__set_free` and `__set_test_and_free` for a used segment of the section. -/
theorem section_free_iff (sbi : Sbi) (map : BitMap) {secno size : Nat}
    (inside : secno * sbi.segsPerSec + sbi.segsPerSec ≤ size) :
    secno * sbi.segsPerSec + sbi.segsPerSec ≤ map.findNextBit size (secno * sbi.segsPerSec) ↔
      ∀ segno, segno / sbi.segsPerSec = secno → map segno = false := by
  constructor
  · rintro late segno rfl
    obtain ⟨lower, upper⟩ := section_bounds sbi segno
    have skipped := BitMap.findNext_skipped lower (lt_of_lt_of_le upper late)
    simpa using skipped
  · intro clear
    by_contra early
    have found : map.findNextBit size (secno * sbi.segsPerSec) < size := by omega
    have above := BitMap.le_findNext_of_found found
    have isSet := BitMap.findNext_found found
    have inSection : map.findNextBit size (secno * sbi.segsPerSec) / sbi.segsPerSec = secno := by
      refine Nat.div_eq_of_lt_le above ?_
      rw [Nat.add_one_mul]
      omega
    rw [BitMap.findNextBit] at inSection
    rw [clear _ inSection] at isSet
    contradiction

/-- A clear bit that is set, or a set bit that is cleared. -/
theorem clearCount_set {map : BitMap} {size bit : Nat} (small : bit < size) (unset : map bit = false) :
    clearCount (map.set bit) size + 1 = clearCount map size := by
  have before := clearCount_eq map size
  have after := clearCount_eq (map.set bit) size
  rw [BitMap.popCount_set small unset] at after
  omega

theorem clearCount_clear {map : BitMap} {size bit : Nat} (small : bit < size)
    (isSet : map bit = true) : clearCount (map.clear bit) size = clearCount map size + 1 := by
  have before := clearCount_eq map size
  have after := clearCount_eq (map.clear bit) size
  have pops := BitMap.popCount_clear small isSet
  omega

/-- A change in one section leaves the others as they are. -/
theorem other_section {map changed : BitMap} {secno segno : Nat}
    (other : secno ≠ segno / sbi.segsPerSec) (frame : ∀ bit ≠ segno, changed bit = map bit) :
    (∀ bit, bit / sbi.segsPerSec = secno → changed bit = false) ↔
      ∀ bit, bit / sbi.segsPerSec = secno → map bit = false := by
  refine forall_congr' fun bit => imp_congr_right fun bit_sec => ?_
  rw [frame bit (by rintro rfl; exact other bit_sec.symm)]

/-- The section of a used segment is in use. -/
theorem FreeCounted.secmap_used (counted : FreeCounted sbi free) {segno : Nat}
    (inMain : segno < sbi.mainSegments) (used : free.freeSegmap segno = true) :
    free.freeSecmap (segno / sbi.segsPerSec) = true := by
  by_contra unused
  have clear := (counted.summary _ (Sbi.secno_lt inMain)).mp (by simpa using unused) segno rfl
  rw [used] at clear
  contradiction

/-- A segment in use becomes free: `__set_free` in `init_free_segmap`. -/
theorem FreeCounted.setFree (counted : FreeCounted sbi free) {segno : Nat}
    (inMain : segno < sbi.mainSegments) (used : free.freeSegmap segno = true) :
    FreeCounted sbi (setFree sbi segno free) := by
  have secno_lt := Sbi.secno_lt inMain
  have whole : segno / sbi.segsPerSec * sbi.segsPerSec + sbi.segsPerSec ≤ sbi.mainSegments := by
    rw [← Nat.add_one_mul, sbi.main_eq]
    exact Nat.mul_le_mul_right _ secno_lt
  have last := section_free_iff sbi (free.freeSegmap.clear segno) whole
  have segments : free.freeSegments + 1 =
      clearCount (free.freeSegmap.clear segno) sbi.mainSegments := by
    rw [clearCount_clear inMain used, counted.segments]
  simp only [F2fs.setFree]
  split
  · next late =>
      have empty := last.mp late
      refine ⟨segments, ?_, fun secno inside => ?_⟩
      · dsimp only
        rw [clearCount_clear secno_lt (counted.secmap_used inMain used), counted.sections]
      · dsimp only
        rcases eq_or_ne secno (segno / sbi.segsPerSec) with rfl | other
        · exact iff_of_true (BitMap.clear_self ..) empty
        · rw [BitMap.clear_of_ne other, counted.summary secno inside,
            other_section other fun bit ne => BitMap.clear_of_ne ne]
  · next early =>
      refine ⟨segments, counted.sections, fun secno inside => ?_⟩
      dsimp only
      rcases eq_or_ne secno (segno / sbi.segsPerSec) with rfl | other
      · refine iff_of_false ?_ fun empty => early (last.mpr empty)
        rw [counted.secmap_used inMain used]
        simp
      · rw [counted.summary secno inside, other_section other fun bit ne => BitMap.clear_of_ne ne]

/-- A free segment gets used. -/
theorem FreeCounted.setInuse (counted : FreeCounted sbi free) {segno : Nat}
    (inMain : segno < sbi.mainSegments) (unused : free.freeSegmap segno = false) :
    FreeCounted sbi (setInuse sbi segno free) := by
  have secno_lt := Sbi.secno_lt inMain
  refine ⟨?_, ?_, fun secno inside => ?_⟩
  · have count := clearCount_set inMain unused
    change free.freeSegments - 1 = _
    rw [counted.segments]
    exact Nat.sub_eq_of_eq_add count.symm
  · change (if free.freeSecmap (segno / sbi.segsPerSec) then free.freeSections
      else free.freeSections - 1) =
        clearCount (free.freeSecmap.set (segno / sbi.segsPerSec)) sbi.totalSections
    split
    · next used =>
        have same : free.freeSecmap.set (segno / sbi.segsPerSec) = free.freeSecmap := by
          funext secno
          rw [BitMap.set_apply]
          split
          · next own => rw [own, used]
          · rfl
        rw [same, counted.sections]
    · next clear =>
        have count := clearCount_set secno_lt (by simpa using clear)
        rw [counted.sections]
        exact Nat.sub_eq_of_eq_add count.symm
  · change free.freeSecmap.set (segno / sbi.segsPerSec) secno = false ↔
      ∀ bit, bit / sbi.segsPerSec = secno → free.freeSegmap.set segno bit = false
    rcases eq_or_ne secno (segno / sbi.segsPerSec) with rfl | other
    · refine iff_of_false (by simp) fun empty => ?_
      have clear := empty segno rfl
      rw [BitMap.set_self] at clear
      contradiction
    · rw [BitMap.set_of_ne other, counted.summary secno inside,
        other_section other fun bit ne => BitMap.set_of_ne ne]

theorem FreeCounted.setTestAndInuse (counted : FreeCounted sbi free) {segno : Nat}
    (inMain : segno < sbi.mainSegments) : FreeCounted sbi (setTestAndInuse sbi segno free) := by
  rw [F2fs.setTestAndInuse]
  split
  · exact counted
  · next unused => exact counted.setInuse inMain (by simpa using unused)

/-- `__set_test_and_free` does what `__set_free` does to a segment in use. -/
theorem FreeCounted.setTestAndFree (counted : FreeCounted sbi free) {segno : Nat}
    (inMain : segno < sbi.mainSegments) : FreeCounted sbi (setTestAndFree sbi segno free) := by
  cases used : free.freeSegmap segno with
  | false =>
      rw [F2fs.setTestAndFree, used]
      exact counted
  | true =>
      have same : F2fs.setTestAndFree sbi segno free = F2fs.setFree sbi segno free := by
        have whole : segno / sbi.segsPerSec * sbi.segsPerSec + sbi.segsPerSec ≤
            sbi.mainSegments := by
          rw [← Nat.add_one_mul, sbi.main_eq]
          exact Nat.mul_le_mul_right _ (Sbi.secno_lt inMain)
        have bounds := (section_free_iff sbi (free.freeSegmap.clear segno) le_rfl).trans
          (section_free_iff sbi (free.freeSegmap.clear segno) whole).symm
        simp only [F2fs.setTestAndFree, F2fs.setFree, used, if_true, bounds,
          counted.secmap_used inMain used]
      rw [same]
      exact counted.setFree inMain used

/-! ## The search for a free section -/

variable {secmap : BitMap}

/-- The loop to the left stops at a free section before it. -/
theorem walkLeft_le {leftStart secno : Nat} (before : secno ≤ leftStart)
    (unused : secmap secno = false) : walkLeft sbi secmap leftStart ≤ leftStart := by
  induction leftStart with
  | zero =>
      obtain rfl := Nat.le_zero.mp before
      rw [walkLeft, unused, if_neg Bool.false_ne_true]
  | succ leftStart ih =>
      rw [walkLeft]
      split
      · next used =>
          have earlier : secno ≤ leftStart := by
            rcases Nat.le_succ_iff.mp before with earlier | rfl
            · exact earlier
            · rw [used] at unused
              contradiction
          exact (ih earlier).trans (Nat.le_succ _)
      · exact le_rfl

theorem findNextZeroBit_lt {hint secno : Nat} (behind : hint ≤ secno) (inMain : secno < sbi.totalSections)
    (unused : secmap secno = false) : secmap.findNextZeroBit sbi.totalSections hint < sbi.totalSections :=
  BitMap.findNext_lt_iff.mpr ⟨secno, behind, inMain, unused⟩

/-- With a free section the search from a place inside the maps ends at one; when it has gone to the
left, `left_start` is the section found. -/
theorem findSection_total {dir : AllocDir} {hint secno : Nat} (inMain : secno < sbi.totalSections)
    (unused : secmap secno = false) (hint_le : hint ≤ sbi.totalSections) (leftStart : Nat) :
    ∃ search, findSection sbi secmap dir hint false leftStart = some search ∧
      (search.goLeft = true → dir = .left ∧ search.leftStart = search.secno) := by
  have fits : sbi.totalSections < 2 ^ 32 := by
    have small := sbi.mainSegments_lt_nullSegno
    have scaled := Nat.le_mul_of_pos_right sbi.totalSections sbi.segsPerSec_pos
    rw [← sbi.main_eq] at scaled
    rw [nullSegno] at small
    omega
  simp only [findSection, searchRight]
  split
  · next late =>
      have before : secno < hint := by
        by_contra behind
        exact absurd (findNextZeroBit_lt (Nat.not_lt.mp behind) inMain unused) (Nat.not_lt.mpr late)
      cases dir with
      | right =>
          have found := findNextZeroBit_lt (Nat.zero_le secno) inMain unused
          refine ⟨_, Option.filter_eq_some_iff.mpr ⟨rfl, decide_eq_true found⟩, fun left => ?_⟩
          contradiction
      | left =>
          have start : sub32 hint 1 = hint - 1 := sub32_of_le (by omega) (by omega)
          have stop := @walkLeft_le sbi _ (hint - 1) secno (by omega) unused
          rw [if_neg (by simp), start, searchLeft]
          dsimp only
          rw [if_pos rfl, if_neg (by omega)]
          exact ⟨_, Option.filter_eq_some_iff.mpr ⟨rfl, decide_eq_true (by dsimp only; omega)⟩,
            fun _ => ⟨rfl, rfl⟩⟩
  · next early =>
      refine ⟨_, Option.filter_eq_some_iff.mpr ⟨rfl, decide_eq_true (Nat.not_le.mp early)⟩,
        fun left => ?_⟩
      contradiction

/-- A second search after one that went to the left ends at the section already found. -/
theorem findSection_again {dir : AllocDir} {hint leftStart : Nat} (inMain : leftStart < sbi.totalSections)
    (unused : secmap leftStart = false) (behind : hint ≤ leftStart) :
    (findSection sbi secmap dir hint true leftStart).isSome := by
  have found := findNextZeroBit_lt behind inMain unused
  have stop : walkLeft sbi secmap leftStart = leftStart := by
    cases leftStart with
    | zero => rw [walkLeft, unused, if_neg Bool.false_ne_true]
    | succ leftStart => rw [walkLeft, unused, if_neg Bool.false_ne_true]
  simp only [findSection, searchRight, if_neg (Nat.not_le.mpr found), searchLeft, if_true,
    if_neg (Nat.not_le.mpr inMain), stop]
  rw [Option.filter_some, if_pos (decide_eq_true inMain)]
  rfl

/-- With a free section `get_new_segment` finds one. -/
theorem findNewSection_total {state : State} {newseg secno : Nat} (dir : AllocDir)
    (inMain : secno < sbi.totalSections) (unused : state.free.freeSecmap secno = false)
    (newseg_lt : newseg < sbi.mainSegments) : (findNewSection sbi state newseg dir).isSome := by
  have hint_le := (Sbi.secno_lt newseg_lt).le
  obtain ⟨first, found, left⟩ := @findSection_total sbi _ dir _ _ inMain unused hint_le
    (newseg / sbi.segsPerSec)
  obtain ⟨first_lt, first_free⟩ := findSection_free found
  simp only [findNewSection, found, Option.bind_some]
  split
  · rfl
  split
  · rfl
  split
  · rfl
  next stay =>
  split
  · rw [Option.isSome_map]
    have zone_le : first.secno / sbi.secsPerZone * sbi.secsPerZone ≤ first.secno :=
      Nat.div_mul_le_self ..
    cases goLeft : first.goLeft with
    | true =>
        obtain ⟨rfl, same⟩ := left goLeft
        rw [same, otherZoneHint, if_pos rfl]
        exact findSection_again first_lt first_free (by omega)
    | false =>
        have next_le : otherZoneHint sbi false (first.secno / sbi.secsPerZone) ≤
            sbi.totalSections := by
          rw [otherZoneHint, if_neg Bool.false_ne_true]
          split
          · exact Nat.zero_le _
          · next inside =>
              exact (Nat.mul_le_mul_right _ (Nat.not_le.mp inside).le).trans
                (Nat.div_mul_le_self ..)
        obtain ⟨second, found', -⟩ := @findSection_total sbi _ dir _ _ inMain unused next_le
          first.leftStart
        rw [found']
        rfl
  · rfl

/-! ## Runs -/

theorem FreeCounted.secmapFree (counted : FreeCounted sbi free) : SecmapFree sbi free :=
  fun segno unused inMain => (counted.summary _ (Sbi.secno_lt inMain)).mp unused segno rfl

/-- What a call of `get_new_segment` gives. -/
structure GotSegment (sbi : Sbi) (state next : State) (segno : Nat) : Prop where
  inMain : segno < sbi.mainSegments
  unused : state.free.freeSegmap segno = false
  segmap : next.free.freeSegmap = state.free.freeSegmap.set segno
  secmap : next.free.freeSecmap = state.free.freeSecmap.set (segno / sbi.segsPerSec)
  warnings : next.warnings = state.warnings
  counted : FreeCounted sbi next.free

theorem FreeCounted.gotSegment {state next : State} {newseg segno : Nat} {newSec : Bool}
    {dir : AllocDir} (counted : FreeCounted sbi state.free) (newseg_lt : newseg < sbi.mainSegments)
    (got : getNewSegment sbi newseg newSec dir state = some (next, segno)) :
    GotSegment sbi state next segno := by
  obtain ⟨segno', found, same⟩ := Option.map_eq_some_iff.mp got
  obtain ⟨rfl, rfl⟩ := Prod.mk.inj same
  obtain ⟨inMain, unused⟩ := findNewSegment_free counted.secmapFree newseg_lt found
  have quiet : bugOn .getNewSegment (state.free.freeSegmap segno') state = state := by
    rw [bugOn, unused, if_neg Bool.false_ne_true]
  rw [quiet]
  exact ⟨inMain, unused, rfl, rfl, rfl, counted.setInuse inMain unused⟩

/-- A call that changes the free maps; the logs may have moved before a search. -/
inductive MapCall
  | inuse (segno : Nat)
  | free (segno : Nat)
  | newSegment (logs : CursegType → Curseg) (newseg : Nat) (newSec : Bool) (dir : AllocDir)

/-- The segment numbers of the main area. -/
def MapCall.Admitted (sbi : Sbi) : MapCall → Prop
  | .inuse segno => segno < sbi.mainSegments
  | .free segno => segno < sbi.mainSegments
  | .newSegment _ newseg _ _ => newseg < sbi.mainSegments

/-- A step; it has no result where `get_new_segment` stops or leaves the maps. -/
def MapCall.step (sbi : Sbi) (state : State) : MapCall → Option State
  | .inuse segno => some { state with free := setTestAndInuse sbi segno state.free }
  | .free segno => some { state with free := setTestAndFree sbi segno state.free }
  | .newSegment logs newseg newSec dir =>
      (getNewSegment sbi newseg newSec dir { state with curseg := logs }).map Prod.fst

theorem FreeCounted.step {state next : State} {call : MapCall} (counted : FreeCounted sbi state.free)
    (admitted : call.Admitted sbi) (steps : call.step sbi state = some next) :
    FreeCounted sbi next.free := by
  cases call with
  | inuse segno =>
      obtain rfl := Option.some.inj steps
      exact counted.setTestAndInuse admitted
  | free segno =>
      obtain rfl := Option.some.inj steps
      exact counted.setTestAndFree admitted
  | newSegment logs newseg newSec dir =>
      obtain ⟨⟨next', segno⟩, got, rfl⟩ := Option.map_eq_some_iff.mp steps
      have logged : FreeCounted sbi { state with curseg := logs }.free := counted
      exact (logged.gotSegment admitted got).counted

theorem FreeCounted.run {state final : State} {calls : List MapCall}
    (counted : FreeCounted sbi state.free) (admitted : ∀ call ∈ calls, call.Admitted sbi)
    (runs : calls.foldlM (fun state call => call.step sbi state) state = some final) :
    FreeCounted sbi final.free := by
  induction calls generalizing state with
  | nil =>
      obtain rfl := Option.some.inj runs
      exact counted
  | cons call calls ih =>
      obtain ⟨next, steps, rest⟩ := Option.bind_eq_some_iff.mp runs
      exact ih (counted.step (admitted call List.mem_cons_self) steps)
        (fun later member => admitted later (List.mem_cons_of_mem call member)) rest

/-- `build_free_segmap` leaves every segment in use. -/
theorem freeCounted_buildFreeSegmap : FreeCounted sbi buildFreeSegmap where
  segments := by
    have count := clearCount_eq (fun _ => true) sbi.mainSegments
    rw [BitMap.popCount_eq_size_iff.mpr fun _ _ => rfl] at count
    change 0 = clearCount (fun _ => true) _
    omega
  sections := by
    have count := clearCount_eq (fun _ => true) sbi.totalSections
    rw [BitMap.popCount_eq_size_iff.mpr fun _ _ => rfl] at count
    change 0 = clearCount (fun _ => true) _
    omega
  summary secno inside := by
    refine iff_of_false Bool.false_ne_true.symm fun empty => ?_
    have first := empty (secno * sbi.segsPerSec) (Nat.mul_div_cancel _ sbi.segsPerSec_pos)
    contradiction

/-- `init_free_segmap` frees each empty segment once, while it is in use. -/
theorem freeCounted_initFreeSegmap {state : State} (unbuilt : state.free = buildFreeSegmap)
    (logs : ∀ type, (state.curseg type).segno < sbi.mainSegments) :
    FreeCounted sbi (initFreeSegmap sbi state).free := by
  have freed : ∀ count ≤ sbi.mainSegments, FreeCounted sbi ((List.range count).foldl
      (fun free segno =>
        if (state.sit.sentries segno).validBlocks = 0 then setFree sbi segno free else free)
      state.free) := by
    intro count
    induction count with
    | zero =>
        intro _
        rw [unbuilt]
        exact freeCounted_buildFreeSegmap
    | succ count ih =>
        intro inside
        have used := @freeSegmap_freeEmpty sbi state.sit.sentries (List.range count) state.free count
        rw [if_neg (by simp), unbuilt] at used
        rw [List.range_succ, List.foldl_append, List.foldl_cons, List.foldl_nil]
        split
        · exact (ih (by omega)).setFree inside (by rw [unbuilt]; exact used)
        · exact ih (by omega)
  have used : ∀ (types : List CursegType) (free : FreeSegmap), FreeCounted sbi free →
      FreeCounted sbi (types.foldl
        (fun free type => setTestAndInuse sbi (state.curseg type).segno free) free) := by
    intro types
    induction types with
    | nil => exact fun free counted => counted
    | cons type types ih => exact fun free counted => ih _ (counted.setTestAndInuse (logs type))
  exact used _ _ (freed _ le_rfl)

/-- After any calls the counters and the section map agree with the segment map; and in every state
where they do, `get_new_segment` gets a free segment as long as there is a free section. -/
theorem freeMaps_agree {start : State} (unbuilt : start.free = buildFreeSegmap)
    (logs : ∀ type, (start.curseg type).segno < sbi.mainSegments) :
    (∀ (calls : List MapCall) (final : State), (∀ call ∈ calls, call.Admitted sbi) →
      calls.foldlM (fun state call => call.step sbi state) (initFreeSegmap sbi start) = some final →
        FreeCounted sbi final.free) ∧
      ∀ state : State, FreeCounted sbi state.free →
        (∃ secno < sbi.totalSections, state.free.freeSecmap secno = false) →
          ∀ newseg < sbi.mainSegments, ∀ newSec dir, ∃ next segno,
            getNewSegment sbi newseg newSec dir state = some (next, segno) ∧
              GotSegment sbi state next segno := by
  refine ⟨fun calls final admitted runs =>
    (freeCounted_initFreeSegmap unbuilt logs).run admitted runs, ?_⟩
  rintro state counted ⟨secno, inside, unused⟩ newseg newseg_lt newSec dir
  obtain ⟨segno, found⟩ : ∃ segno, findNewSegment sbi state newseg newSec dir = some segno := by
    rw [← Option.isSome_iff_exists]
    simp only [findNewSegment]
    split
    · rfl
    · rw [Option.isSome_map]
      exact findNewSection_total dir inside unused newseg_lt
  have got : ∃ next, getNewSegment sbi newseg newSec dir state = some (next, segno) :=
    ⟨_, Option.map_eq_some_iff.mpr ⟨segno, found, rfl⟩⟩
  obtain ⟨next, got⟩ := got
  exact ⟨next, segno, got, counted.gotSegment newseg_lt got⟩

/-- The small volume with its logs placed, before `init_free_segmap`. -/
def smallUnbuilt : State :=
  { unbuilt smallImage with
    curseg := fun type => { (unbuilt smallImage).curseg type with segno := type.toNat } }

theorem freeMaps_agree_small :
    FreeCounted smallVolume (initFreeSegmap smallVolume smallUnbuilt).free ∧
      ∀ newSec dir, ∃ next segno,
        getNewSegment smallVolume 3 newSec dir (initFreeSegmap smallVolume smallUnbuilt) =
            some (next, segno) ∧
          GotSegment smallVolume (initFreeSegmap smallVolume smallUnbuilt) next segno := by
  have logs : ∀ type, (smallUnbuilt.curseg type).segno < smallVolume.mainSegments := by
    intro type
    cases type <;> decide
  obtain ⟨runs, finds⟩ := @freeMaps_agree smallVolume smallUnbuilt rfl logs
  have counted := runs [] _ (fun _ member => absurd member List.not_mem_nil) rfl
  refine ⟨counted, finds _ counted ⟨7, by decide, ?_⟩ 3 (by decide)⟩
  rw [counted.summary 7 (by decide)]
  intro segno same
  rw [show smallVolume.segsPerSec = 1 from rfl, Nat.div_one] at same
  rw [same, freeSegmap_initFreeSegmap _ (by decide) rfl]
  decide

end F2fs
end StorageStack
