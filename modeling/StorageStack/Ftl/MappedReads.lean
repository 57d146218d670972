import StorageStack.Ftl.ReadRequests

/-!
# The pages that a read reads

The loops of `FTL_READ` count sectors.  Here their rounds become pages, and the reads of a request
are compared with the pages to which the logical pages are mapped: a page map is read one page late,
and in a root with extents the walk goes on in step with the logical pages only while the leaves of
one index node follow each other without a gap.
-/

namespace StorageStack
namespace Ftl

/-! ## Rounds and pages -/

/-- The pages of a number of sectors from the start of a page on. -/
def pageCount (sectorsPerPage sectors : Nat) : Nat :=
  (sectors + sectorsPerPage - 1) / sectorsPerPage

section Rounds

variable {sectorsPerPage leftSkip remain : Nat}

theorem pageSects_eq (skip_lt : leftSkip < sectorsPerPage) :
    pageSects sectorsPerPage leftSkip remain = min remain (sectorsPerPage - leftSkip) := by
  rw [pageSects]
  split_ifs <;> omega

theorem pageSects_pos (skip_lt : leftSkip < sectorsPerPage) (more : 0 < remain) :
    0 < pageSects sectorsPerPage leftSkip remain := by
  rw [pageSects_eq skip_lt]
  omega

/-- One round reads one page. -/
theorem pageCount_round (skip_lt : leftSkip < sectorsPerPage) (more : 0 < remain) :
    pageCount sectorsPerPage (leftSkip + remain) =
      pageCount sectorsPerPage (remain - pageSects sectorsPerPage leftSkip remain) + 1 := by
  have page_pos : 0 < sectorsPerPage := by omega
  rw [pageSects_eq skip_lt, pageCount, pageCount, ← Nat.add_div_right _ page_pos]
  rcases Nat.le_total remain (sectorsPerPage - leftSkip) with last | onward
  · have none_left : remain - min remain (sectorsPerPage - leftSkip) = 0 := by omega
    have one : (0 + sectorsPerPage - 1 + sectorsPerPage) / sectorsPerPage = 1 :=
      Nat.div_eq_of_lt_le (by omega) (by omega)
    rw [none_left, one]
    exact Nat.div_eq_of_lt_le (by omega) (by omega)
  · congr 1
    omega

theorem pageCount_zero (page_pos : 0 < sectorsPerPage) : pageCount sectorsPerPage 0 = 0 :=
  Nat.div_eq_of_lt (by omega)

theorem pageCount_pos (skip_lt : leftSkip < sectorsPerPage) (more : 0 < remain) :
    0 < pageCount sectorsPerPage (leftSkip + remain) := by
  rw [pageCount_round skip_lt more]
  exact Nat.succ_pos _

end Rounds

/-- The sectors that remain are on `count` pages. -/
structure Counts (sectorsPerPage count : Nat) (reader : Reader) : Prop where
  skip_lt : reader.leftSkip < sectorsPerPage
  more : 0 < reader.remain → count = pageCount sectorsPerPage (reader.leftSkip + reader.remain)
  done : reader.remain = 0 → count = 0

namespace Counts

variable {sectorsPerPage count : Nat} {reader : Reader}

theorem remain_eq_zero_iff (counts : Counts sectorsPerPage count reader) :
    reader.remain = 0 ↔ count = 0 := by
  refine ⟨counts.done, fun none => ?_⟩
  by_contra more
  have pages := pageCount_pos counts.skip_lt (Nat.pos_of_ne_zero more)
  rw [← counts.more (Nat.pos_of_ne_zero more)] at pages
  omega

/-- What is read does not change the count. -/
theorem read (counts : Counts sectorsPerPage count reader) (reads : List (Nat × Nat)) (ppn : Nat) :
    Counts sectorsPerPage count { reader with ppn := ppn, reads := reads } :=
  ⟨counts.skip_lt, counts.more, counts.done⟩

theorem skip (counts : Counts sectorsPerPage (count + 1) reader)
    (aligned : reader.leftSkip = 0) : Counts sectorsPerPage count (reader.skip sectorsPerPage) := by
  have more : 0 < reader.remain := Nat.pos_of_ne_zero fun none => by
    have zero := counts.done none
    omega
  have step := pageCount_round counts.skip_lt more
  rw [← counts.more more, Nat.add_right_cancel_iff] at step
  refine ⟨counts.skip_lt, fun _ => ?_, fun none => ?_⟩
  · change count = pageCount sectorsPerPage (reader.leftSkip +
      (reader.remain - pageSects sectorsPerPage reader.leftSkip reader.remain))
    rw [step]
    congr 1
    omega
  · have none' : reader.remain - pageSects sectorsPerPage reader.leftSkip reader.remain = 0 := none
    rw [step, none', pageCount_zero (Nat.zero_lt_of_lt counts.skip_lt)]

theorem advance (counts : Counts sectorsPerPage (count + 1) reader) :
    Counts sectorsPerPage count (reader.advance sectorsPerPage) := by
  have more : 0 < reader.remain := Nat.pos_of_ne_zero fun none => by
    have zero := counts.done none
    omega
  have page_pos := Nat.zero_lt_of_lt counts.skip_lt
  have step := pageCount_round counts.skip_lt more
  rw [← counts.more more, Nat.add_right_cancel_iff] at step
  refine ⟨page_pos, fun _ => ?_, fun none => ?_⟩
  · change count = pageCount sectorsPerPage (0 +
      (reader.remain - pageSects sectorsPerPage reader.leftSkip reader.remain))
    rw [Nat.zero_add, step]
  · have none' : reader.remain - pageSects sectorsPerPage reader.leftSkip reader.remain = 0 := none
    rw [step, none', pageCount_zero page_pos]

end Counts

/-- The sectors before `stop` remain. -/
structure Before (stop : Nat) (reader : Reader) : Prop where
  remain_le : reader.remain ≤ stop
  lba : reader.lba = word (stop - reader.remain)

namespace Before

variable {stop : Nat} {reader : Reader}

theorem read (before : Before stop reader) (reads : List (Nat × Nat)) (ppn : Nat) :
    Before stop { reader with ppn := ppn, reads := reads } :=
  ⟨before.remain_le, before.lba⟩

theorem skip {sectorsPerPage : Nat} (skip_lt : reader.leftSkip < sectorsPerPage)
    (before : Before stop reader) : Before stop (reader.skip sectorsPerPage) := by
  have le := before.remain_le
  have lba := before.lba
  have sects := @pageSects_eq _ _ reader.remain skip_lt
  refine ⟨?_, ?_⟩
  · change reader.remain - _ ≤ stop
    omega
  · change word (reader.lba + _) = word (stop - (reader.remain - _))
    rw [lba, word, word, word]
    omega

theorem advance {sectorsPerPage : Nat} (skip_lt : reader.leftSkip < sectorsPerPage)
    (before : Before stop reader) : Before stop (reader.advance sectorsPerPage) :=
  ⟨(before.skip skip_lt).remain_le, (before.skip skip_lt).lba⟩

end Before

theorem remain_advance_lt {sectorsPerPage : Nat} {reader : Reader}
    (skip_lt : reader.leftSkip < sectorsPerPage) (more : 0 < reader.remain) :
    (reader.advance sectorsPerPage).remain < reader.remain :=
  Nat.sub_lt more (pageSects_pos skip_lt more)

/-! ## One leaf -/

section Leaf

variable {sectorsPerPage leafSize lpn count : Nat} {node : LeafNode} {reader : Reader}

theorem readLeaf_remain_le (skip_lt : reader.leftSkip < sectorsPerPage) :
    (readLeaf sectorsPerPage node leafSize lpn reader).remain ≤ reader.remain := by
  induction leafSize generalizing lpn reader with
  | zero => exact Nat.le_refl _
  | succ leafSize ih =>
      rw [readLeaf]
      by_cases done : reader.remain = 0
      · rw [if_pos done]
      · rw [if_neg done]
        exact (ih (Nat.zero_lt_of_lt skip_lt)).trans (Nat.sub_le _ _)

theorem readLeaf_remain_lt (skip_lt : reader.leftSkip < sectorsPerPage) (size_pos : 0 < leafSize)
    (more : 0 < reader.remain) :
    (readLeaf sectorsPerPage node leafSize lpn reader).remain < reader.remain := by
  obtain ⟨leafSize, rfl⟩ := Nat.exists_eq_add_one_of_ne_zero size_pos.ne'
  rw [readLeaf, if_neg more.ne']
  exact (readLeaf_remain_le (Nat.zero_lt_of_lt skip_lt)).trans_lt (remain_advance_lt skip_lt more)

theorem readLeaf_skip_lt (skip_lt : reader.leftSkip < sectorsPerPage) :
    (readLeaf sectorsPerPage node leafSize lpn reader).leftSkip < sectorsPerPage := by
  induction leafSize generalizing lpn reader with
  | zero => exact skip_lt
  | succ leafSize ih =>
      rw [readLeaf]
      by_cases done : reader.remain = 0
      · rwa [if_pos done]
      · rw [if_neg done]
        exact ih (Nat.zero_lt_of_lt skip_lt)

/-- The loop over a leaf reads its pages as long as there are sectors. -/
structure LeafRead (sectorsPerPage leafSize lpn count : Nat) (reader final : Reader) : Prop where
  reads : final.reads = reader.reads ++ leafReads lpn reader.ppn (min leafSize count)
  counts : Counts sectorsPerPage (count - leafSize) final
  ppn : final.ppn = reader.ppn + min leafSize count
  aligned : reader.leftSkip = 0 ∨ 0 < min leafSize count → final.leftSkip = 0
  before : ∀ stop, Before stop reader → Before stop final

theorem LeafRead.empty (counts : Counts sectorsPerPage count reader) :
    LeafRead sectorsPerPage 0 lpn count reader reader where
  reads := by rw [Nat.zero_min, leafReads, List.append_nil]
  counts := counts
  ppn := by rw [Nat.zero_min, Nat.add_zero]
  aligned alternatives := alternatives.resolve_right (by omega)
  before _ before := before

theorem readLeaf_spec (used : node.used = true) (mapped : node.ppn ≠ unmapped)
    (counts : Counts sectorsPerPage count reader) (fits : reader.ppn + leafSize < 2 ^ 32) :
    LeafRead sectorsPerPage leafSize lpn count reader
      (readLeaf sectorsPerPage node leafSize lpn reader) := by
  induction leafSize generalizing lpn count reader with
  | zero => exact LeafRead.empty counts
  | succ leafSize ih =>
      rw [readLeaf]
      rcases Nat.eq_zero_or_pos count with rfl | positive
      · rw [if_pos (counts.remain_eq_zero_iff.mpr rfl)]
        exact
          { reads := by rw [Nat.min_zero, leafReads, List.append_nil]
            counts := by rwa [Nat.zero_sub]
            ppn := by rw [Nat.min_zero, Nat.add_zero]
            aligned := fun alternatives => alternatives.resolve_right (by omega)
            before := fun _ before => before }
      · obtain ⟨count, rfl⟩ := Nat.exists_eq_add_one_of_ne_zero positive.ne'
        have more : reader.remain ≠ 0 := fun none => by
          have zero := counts.remain_eq_zero_iff.mp none
          omega
        have next : word (reader.ppn + 1) = reader.ppn + 1 := Nat.mod_eq_of_lt (by omega)
        rw [if_neg more, if_neg (by simp [used, mapped]), next]
        obtain ⟨reads, counts', ppn, aligned, before⟩ := @ih (lpn + 1) count _
          ((counts.read (reader.reads ++ [(lpn, reader.ppn)]) (reader.ppn + 1)).advance)
          (show reader.ppn + 1 + leafSize < 2 ^ 32 by omega)
        have least : min (leafSize + 1) (count + 1) = min leafSize count + 1 := by omega
        refine ⟨?_, ?_, ?_, fun _ => aligned (.inl rfl), fun stop at_stop => ?_⟩
        · rw [least, leafReads]
          refine reads.trans ?_
          exact List.append_assoc ..
        · rwa [Nat.add_sub_add_right]
        · rw [least]
          refine ppn.trans ?_
          change reader.ppn + 1 + min leafSize count = _
          omega
        · exact before stop ((at_stop.read _ _).advance counts.skip_lt)

end Leaf

/-! ## The leaves of an index node -/

section Walk

variable {root : Root} {sectorsPerPage iNum lNum leafSize lpn tSectors count rounds : Nat}
  {reader : Reader}

theorem pmGetLnode_spec (formed : root.WellFormed) (iNum_lt : iNum < indexNodeSize)
    (used : (root.iNode iNum).used = true) (lNum_lt : lNum < leafNodeSize) :
    pmGetLnode root iNum lNum =
      if lNum + 1 < leafNodeSize then some (iNum, lNum + 1, root.leaf iNum (lNum + 1))
      else none := by
  have six : indexNodeSize = leafNodeSize := rfl
  obtain ⟨array, pointer⟩ := formed.pointer iNum iNum_lt used
  rw [pmGetLnode, if_neg (by omega)]
  dsimp only
  by_cases inside : lNum + 1 < leafNodeSize
  · rw [if_pos ⟨iNum_lt, inside, used⟩, if_pos inside, pointer, Option.map_some, Root.leaf, pointer]
  · rw [if_neg (by tauto), if_neg inside]

/-- The leaf that a round of the walk reads: a leaf with pages left, or none. -/
def Steady (root : Root) (iNum lNum leafSize : Nat) (reader : Reader) : Prop :=
  leafSize = 0 ∧ reader.leftSkip = 0 ∨
    0 < leafSize ∧ (root.leaf iNum lNum).used = true ∧ reader.ppn + leafSize ≤ unmapped

theorem Steady.readLeaf (formed : root.WellFormed) (iNum_lt : iNum < indexNodeSize)
    (used : (root.iNode iNum).used = true) (lNum_lt : lNum < leafNodeSize)
    (steady : Steady root iNum lNum leafSize reader) (lpn : Nat)
    (counts : Counts sectorsPerPage count reader) :
    LeafRead sectorsPerPage leafSize lpn count reader
      (Ftl.readLeaf sectorsPerPage (root.leaf iNum lNum) leafSize lpn reader) := by
  rcases steady with ⟨rfl, aligned⟩ | ⟨positive, leaf_used, fits⟩
  · exact LeafRead.empty counts
  · obtain ⟨size_pos, -, -, ppn_pos, ppn_le⟩ :=
      formed.leaf_used iNum iNum_lt used lNum lNum_lt leaf_used
    have last : unmapped = 2 ^ 32 - 1 := rfl
    exact readLeaf_spec leaf_used (by omega) counts (by omega)

theorem steady_of_used (formed : root.WellFormed) (iNum_lt : iNum < indexNodeSize)
    (used : (root.iNode iNum).used = true) (lNum_lt : lNum < leafNodeSize)
    (leaf_used : (root.leaf iNum lNum).used = true) (reader : Reader) :
    Steady root iNum lNum (root.leaf iNum lNum).size
      { reader with ppn := (root.leaf iNum lNum).ppn } := by
  obtain ⟨size_pos, -, -, -, ppn_le⟩ := formed.leaf_used iNum iNum_lt used lNum lNum_lt leaf_used
  exact .inr ⟨size_pos, leaf_used, ppn_le⟩

/-- The walk reads the pages that the walk over the slots reads. -/
theorem walkLeaves_reads (formed : root.WellFormed) (iNum_lt : iNum < indexNodeSize)
    (used : (root.iNode iNum).used = true) (lNum_lt : lNum < leafNodeSize)
    (steady : Steady root iNum lNum leafSize reader)
    (counts : Counts sectorsPerPage count reader) :
    (walkLeaves sectorsPerPage root rounds iNum lNum (root.leaf iNum lNum) leafSize lpn tSectors
        reader).map (fun result => result.1.reads) =
      (walkPages (root.leaf iNum) rounds lNum leafSize lpn reader.ppn count).map
        (reader.reads ++ ·) := by
  induction rounds generalizing lNum leafSize lpn tSectors count reader with
  | zero => rfl
  | succ rounds ih =>
      have step := steady.readLeaf formed iNum_lt used lNum_lt lpn counts
      rw [walkLeaves, walkPages]
      dsimp only
      generalize readLeaf sectorsPerPage (root.leaf iNum lNum) leafSize lpn reader = final at step ⊢
      have done := step.counts.remain_eq_zero_iff
      by_cases all : count ≤ leafSize
      · rw [if_pos (done.mpr (by omega)), if_pos all, Option.map_some, Option.map_some, step.reads,
          Nat.min_eq_right all]
      · have aligned : final.leftSkip = 0 := by
          apply step.aligned
          rcases steady with ⟨-, aligned⟩ | ⟨positive, -⟩
          · exact .inl aligned
          · exact .inr (by omega)
        have read : final.reads = reader.reads ++ leafReads lpn reader.ppn leafSize := by
          rw [step.reads, Nat.min_eq_left (by omega)]
        have ppn : final.ppn = reader.ppn + leafSize := by
          rw [step.ppn, Nat.min_eq_left (by omega)]
        rw [if_neg (by rw [done]; omega), if_neg all, pmGetLnode_spec formed iNum_lt used lNum_lt]
        by_cases inside : lNum + 1 < leafNodeSize
        · rw [if_pos inside, if_pos inside, Option.bind_some]
          dsimp only
          cases leaf_used : (root.leaf iNum (lNum + 1)).used with
          | false =>
              have counts' : Counts sectorsPerPage (count - leafSize - 1 + 1) final := by
                have same : count - leafSize - 1 + 1 = count - leafSize := by omega
                rw [same]
                exact step.counts
              have steady' : Steady root iNum (lNum + 1) 0 (final.skip sectorsPerPage) :=
                .inl ⟨rfl, aligned⟩
              rw [if_pos (.inl rfl), if_pos rfl, ih inside steady' (counts'.skip aligned)]
              change Option.map (final.reads ++ ·) (walkPages _ _ _ _ _ final.ppn _) = _
              rw [ppn, read, Option.map_map]
              congr 1
              funext later
              exact List.append_assoc ..
          | true =>
              obtain ⟨size_pos, -, -, ppn_pos, ppn_le⟩ :=
                formed.leaf_used iNum iNum_lt used (lNum + 1) inside leaf_used
              rw [if_neg (by rintro (absurd' | absurd'); exacts [by contradiction, by omega]),
                if_neg (by simp),
                ih inside (steady_of_used formed iNum_lt used inside leaf_used final)
                  (step.counts.read _ _)]
              rw [Option.map_map]
              dsimp only
              rw [read]
              congr 1
              funext later
              exact List.append_assoc ..
        · rw [if_neg inside, if_neg inside]
          rfl

/-- A walk past its first leaf leaves fewer sectors in `t_sectors`. -/
theorem walkLeaves_sectors_le (formed : root.WellFormed) (iNum_lt : iNum < indexNodeSize)
    (used : (root.iNode iNum).used = true) (lNum_lt : lNum < leafNodeSize)
    (skip_lt : reader.leftSkip < sectorsPerPage) {bound : Nat} (tSectors_le : tSectors ≤ bound)
    (remain_le : reader.remain ≤ bound) {final : Reader} {rest : Nat}
    (walk : walkLeaves sectorsPerPage root rounds iNum lNum (root.leaf iNum lNum) leafSize lpn
      tSectors reader = some (final, rest)) : rest ≤ bound := by
  induction rounds generalizing lNum leafSize lpn tSectors reader bound with
  | zero => cases walk
  | succ rounds ih =>
      have fewer := @readLeaf_remain_le _ leafSize lpn (root.leaf iNum lNum) _ skip_lt
      have skip_lt' := @readLeaf_skip_lt _ leafSize lpn (root.leaf iNum lNum) _ skip_lt
      rw [walkLeaves] at walk
      dsimp only at walk
      generalize readLeaf sectorsPerPage (root.leaf iNum lNum) leafSize lpn reader = middle
        at fewer skip_lt' walk
      have inBound : middle.remain ≤ bound := fewer.trans remain_le
      by_cases none_left : middle.remain = 0
      · rw [if_pos none_left] at walk
        cases walk
        exact tSectors_le
      · rw [if_neg none_left, pmGetLnode_spec formed iNum_lt used lNum_lt] at walk
        by_cases inside : lNum + 1 < leafNodeSize
        · rw [if_pos inside, Option.bind_some] at walk
          dsimp only at walk
          split at walk
          · have skipped : (middle.skip sectorsPerPage).remain ≤ bound :=
              (Nat.sub_le _ _).trans inBound
            exact @ih _ _ _ _ (middle.skip sectorsPerPage) inside skip_lt' _ skipped skipped walk
          · exact @ih _ _ _ _ { middle with ppn := (root.leaf iNum (lNum + 1)).ppn } inside skip_lt' _
              inBound inBound walk
        · rw [if_neg inside] at walk
          cases walk

/-- The walk of a part: it ends in its first leaf, or it leaves fewer sectors in `t_sectors`. -/
theorem walkLeaves_ends (formed : root.WellFormed) (iNum_lt : iNum < indexNodeSize)
    (used : (root.iNode iNum).used = true) (lNum_lt : lNum < leafNodeSize)
    (leaf_used : (root.leaf iNum lNum).used = true) (fits : reader.ppn + leafSize ≤ unmapped)
    (size_pos : 0 < leafSize) (counts : Counts sectorsPerPage count reader) (positive : 0 < count)
    {final : Reader} {rest : Nat}
    (walk : walkLeaves sectorsPerPage root rounds iNum lNum (root.leaf iNum lNum) leafSize lpn
      reader.remain reader = some (final, rest)) :
    if count ≤ leafSize then
      rest = reader.remain ∧ final.leftSkip = 0 ∧ final.ppn = reader.ppn + count ∧
        final.remain = 0 ∧ ∀ stop, Before stop reader → Before stop final
    else rest < reader.remain := by
  obtain ⟨rounds, rfl⟩ : ∃ more, rounds = more + 1 := by
    cases rounds with
    | zero => cases walk
    | succ more => exact ⟨more, rfl⟩
  have steady : Steady root iNum lNum leafSize reader := .inr ⟨size_pos, leaf_used, fits⟩
  have step := steady.readLeaf formed iNum_lt used lNum_lt lpn counts
  have fewer := @readLeaf_remain_lt _ leafSize lpn (root.leaf iNum lNum) _ counts.skip_lt size_pos
    (Nat.pos_of_ne_zero fun none => positive.ne' (counts.done none))
  rw [walkLeaves] at walk
  dsimp only at walk
  generalize readLeaf sectorsPerPage (root.leaf iNum lNum) leafSize lpn reader = middle
    at step fewer walk
  have done := step.counts.remain_eq_zero_iff
  by_cases all : count ≤ leafSize
  · have none_left : middle.remain = 0 := done.mpr (by omega)
    rw [if_pos none_left] at walk
    cases walk
    have ppn := step.ppn
    rw [Nat.min_eq_right all] at ppn
    rw [if_pos all]
    exact ⟨rfl, step.aligned (.inr (by omega)), ppn, none_left, step.before⟩
  · rw [if_neg (by rw [done]; omega), pmGetLnode_spec formed iNum_lt used lNum_lt] at walk
    rw [if_neg all]
    refine Nat.lt_of_le_of_lt ?_ fewer
    by_cases inside : lNum + 1 < leafNodeSize
    · rw [if_pos inside, Option.bind_some] at walk
      dsimp only at walk
      split at walk
      · have skipped : (middle.skip sectorsPerPage).remain ≤ middle.remain := Nat.sub_le _ _
        exact @walkLeaves_sectors_le _ _ _ _ _ _ _ _ (middle.skip sectorsPerPage) formed iNum_lt used
          inside step.counts.skip_lt _ skipped skipped _ _ walk
      · exact @walkLeaves_sectors_le _ _ _ _ _ _ _ _
          { middle with ppn := (root.leaf iNum (lNum + 1)).ppn } formed iNum_lt used inside
          step.counts.skip_lt _ le_rfl le_rfl _ _ walk
    · rw [if_neg inside] at walk
      cases walk

end Walk

/-! ## Walks in step with the logical pages -/

namespace Row

variable {mapsTo : Nat → Nat → Prop} {leaves : Nat → LeafNode} {start : Nat → Nat}
  {rounds lNum leafSize lpn ppn count : Nat} {reads : List (Nat × Nat)}

/-- The page is in a leaf of the index node. -/
def Contains (leaves : Nat → LeafNode) (start : Nat → Nat) (page : Nat) : Prop :=
  ∃ slot < leafNodeSize, (leaves slot).used = true ∧ start slot ≤ page ∧
    page < start slot + (leaves slot).size

/-- No page is mapped behind one that is in no leaf of the index node. -/
def Gapless (mapsTo : Nat → Nat → Prop) (leaves : Nat → LeafNode) (start : Nat → Nat)
    (first count : Nat) : Prop :=
  ∀ page ppn, first ≤ page → page < first + count → mapsTo page ppn →
    ∀ between, first ≤ between → between ≤ page → Contains leaves start between

variable (row : Row mapsTo leaves start)
include row

theorem leaf_lt {slot later : Nat} (lt : slot < later) (later_lt : later < leafNodeSize)
    (used : (leaves later).used = true) :
    (leaves slot).used = true ∧ start slot + (leaves slot).size ≤ start later := by
  induction later, lt using Nat.le_induction with
  | base => exact row.next slot later_lt used
  | succ later le ih =>
      obtain ⟨used', before⟩ := row.next later later_lt used
      obtain ⟨first_used, first_before⟩ := ih (by omega) used'
      exact ⟨first_used, by omega⟩

theorem not_contains {page : Nat} (lNum_lt : lNum < leafNodeSize)
    (used : (leaves lNum).used = true) (behind : start lNum + (leaves lNum).size ≤ page)
    (before : lNum + 1 < leafNodeSize → (leaves (lNum + 1)).used = true → page < start (lNum + 1)) :
    ¬ Contains leaves start page := by
  rintro ⟨slot, slot_lt, slot_used, le, lt⟩
  rcases Nat.lt_trichotomy slot lNum with earlier | rfl | later
  · have order := (row.leaf_lt earlier lNum_lt used).2
    omega
  · omega
  · rcases Nat.eq_or_lt_of_le (show lNum + 1 ≤ slot from later) with rfl | further
    · have apart := before slot_lt slot_used
      omega
    · obtain ⟨next_used, order⟩ := row.leaf_lt further slot_lt slot_used
      have apart := before (by omega) next_used
      omega

/-- A walk in step with the logical pages reads every mapped page at its place exactly if no page
is mapped behind a gap or in another index node. -/
theorem covers_iff (lNum_lt : lNum < leafNodeSize) (used : (leaves lNum).used = true)
    (size : leafSize ≤ (leaves lNum).size)
    (place : ppn = (leaves lNum).ppn + ((leaves lNum).size - leafSize))
    (aligned : start lNum + (leaves lNum).size = lpn + leafSize)
    (walk : walkPages leaves rounds lNum leafSize lpn ppn count = some reads) :
    (∀ page place, lpn ≤ page → page < lpn + count → mapsTo page place → (page, place) ∈ reads) ↔
      Gapless mapsTo leaves start lpn count := by
  induction rounds generalizing lNum leafSize lpn ppn count reads with
  | zero => cases walk
  | succ rounds ih =>
      have inLeaf : ∀ page, lpn ≤ page → page < lpn + leafSize → Contains leaves start page :=
        fun page le lt => ⟨lNum, lNum_lt, used, by omega, by omega⟩
      have atPlace : ∀ page place', lpn ≤ page → page < lpn + leafSize → mapsTo page place' →
          place' = ppn + (page - lpn) := by
        intro page place' le lt maps
        have own := (row.holds lNum lNum_lt used).2 (page - start lNum) (by omega)
        have same : start lNum + (page - start lNum) = page := by omega
        rw [same] at own
        have eq := row.functional page _ _ maps own
        omega
      rcases Nat.lt_or_ge leafSize count with more | all
      · obtain ⟨inside, later, rfl, rest⟩ := mem_walkPages_cons walk more
        have first : ∀ page place', lpn ≤ page → page < lpn + leafSize → mapsTo page place' →
            (page, place') ∈ leafReads lpn ppn leafSize ++ later := by
          intro page place' le lt maps
          have eq := atPlace page place' le lt maps
          exact List.mem_append_left _
            (mem_leafReads.mpr ⟨page - lpn, by omega, by dsimp only; omega, by dsimp only; omega⟩)
        have behind : ∀ page place', lpn + leafSize ≤ page →
            ((page, place') ∈ leafReads lpn ppn leafSize ++ later ↔ (page, place') ∈ later) := by
          intro page place' le
          rw [List.mem_append, or_iff_right]
          intro member
          obtain ⟨offset, offset_lt, page_eq, -⟩ := mem_leafReads.mp member
          dsimp only at page_eq
          omega
        -- the walk has left the logical pages
        have broken : (∀ page place', mapsTo page place' → (page, place') ∉ later) →
            ¬ Contains leaves start (lpn + leafSize) →
            ((∀ page place', lpn ≤ page → page < lpn + count → mapsTo page place' →
                (page, place') ∈ leafReads lpn ppn leafSize ++ later) ↔
              Gapless mapsTo leaves start lpn count) := by
          intro wrong outside
          constructor
          · intro covers page place' le lt maps between le' le''
            rcases Nat.lt_or_ge page (lpn + leafSize) with early | late
            · exact inLeaf between le' (by omega)
            · exact absurd ((behind page place' late).mp (covers page place' le lt maps))
                (wrong page place' maps)
          · intro gapless page place' le lt maps
            rcases Nat.lt_or_ge page (lpn + leafSize) with early | late
            · exact first page place' le early maps
            · exact absurd (gapless page place' le lt maps _ (Nat.le_add_right ..) late) outside
        cases used' : (leaves (lNum + 1)).used with
        | false =>
            rw [if_pos used'] at rest
            rw [row.reads_unused used' rest] at broken ⊢
            refine broken (fun _ _ _ => List.not_mem_nil) (row.not_contains lNum_lt used ?_ ?_)
            · exact aligned.le
            · intro _ next_used
              rw [used'] at next_used
              contradiction
        | true =>
            rw [if_neg (by simp [used'])] at rest
            have order := (row.next lNum inside used').2
            rcases Nat.eq_or_lt_of_le order with adjacent | gap
            · have next := ih inside used' le_rfl (by omega) (by omega) rest
              constructor
              · intro covers page place' le lt maps between le' le''
                rcases Nat.lt_or_ge between (lpn + leafSize) with early | late
                · exact inLeaf between le' early
                · exact next.mp (fun page place' le lt maps =>
                    (behind page place' le).mp (covers page place' (by omega) (by omega) maps))
                    page place' (by omega) (by omega) maps between late le''
              · intro gapless page place' le lt maps
                rcases Nat.lt_or_ge page (lpn + leafSize) with early | late
                · exact first page place' le early maps
                · exact (behind page place' late).mpr (next.mpr
                    (fun page place' le lt maps between le' => gapless page place' (by omega) (by omega)
                      maps between (by omega)) page place' late (by omega) maps)
            · refine broken ?_ (row.not_contains lNum_lt used aligned.le fun _ _ => by omega)
              exact @not_mem_of_ahead _ _ _ _ _ _ _ _ _ _ row
                (start (lNum + 1) - (lpn + leafSize)) inside used' le_rfl (by omega) (by omega)
                (by omega) rest
      · rw [walkPages, if_pos all, Option.some.injEq] at walk
        subst walk
        refine iff_of_true (fun page place' le lt maps => ?_)
          fun page place' le lt _ between le' le'' => inLeaf between le' (by omega)
        have eq := atPlace page place' le (by omega) maps
        exact mem_leafReads.mpr ⟨page - lpn, by omega, by dsimp only; omega, by dsimp only; omega⟩

end Row

/-! ## Parts in a root with extents -/

namespace Root.WellFormed

variable {root : Root} (formed : root.WellFormed)
include formed

/-- The range of a used index node lies in the root. -/
theorem index_le {iNum : Nat} (iNum_lt : iNum < indexNodeSize)
    (used : (root.iNode iNum).used = true) :
    (root.iNode iNum).lpn + (root.iNode iNum).size ≤ numPagePerRoot := by
  obtain ⟨left, rfl⟩ : ∃ left, iNum = indexNodeSize - 1 - left :=
    ⟨indexNodeSize - 1 - iNum, by omega⟩
  induction left with
  | zero => exact (formed.index_end _ iNum_lt used fun next => by omega).le
  | succ left ih =>
      by_cases more : indexNodeSize - 1 - (left + 1) + 1 < indexNodeSize ∧
          (root.iNode (indexNodeSize - 1 - (left + 1) + 1)).used = true
      · obtain ⟨-, next⟩ := formed.index_next _ more.1 more.2
        rcases Nat.lt_or_ge (left + 1) indexNodeSize with inside | outside
        · have same : indexNodeSize - 1 - (left + 1) + 1 = indexNodeSize - 1 - left := by omega
          rw [same] at next more
          have order := ih more.1 more.2
          omega
        · have same : indexNodeSize - 1 - (left + 1) = indexNodeSize - 1 - left := by omega
          rw [same] at used ⊢
          exact ih (by omega) used
      · refine (formed.index_end _ iNum_lt used fun next => ?_).le
        have unused := not_and.mp more next
        simpa using unused

end Root.WellFormed

theorem mapsTo_extents {maps : Nat → RootMap} {lpn ppn : Nat} {root : Root}
    (table : maps (lpn / numPagePerRoot) = .extents (some root)) :
    MapsTo maps lpn ppn ↔ ∃ iNum lNum, root.Holds iNum lNum (lpn % numPagePerRoot) ∧
      ppn = (root.leaf iNum lNum).ppn + (lpn % numPagePerRoot - (root.leaf iNum lNum).lpn) := by
  rw [MapsTo, table]

theorem mapsTo_functional {maps : Nat → RootMap} (wellMapped : WellMapped maps)
    {lpn ppn ppn' : Nat} (maps_to : MapsTo maps lpn ppn) (maps_to' : MapsTo maps lpn ppn') :
    ppn = ppn' := by
  cases table : maps (lpn / numPagePerRoot) with
  | pages entries =>
      rw [MapsTo, table] at maps_to maps_to'
      cases entries with
      | none => cases maps_to
      | some entries => exact maps_to.1.symm.trans maps_to'.1
  | extents table' =>
      cases table' with
      | none =>
          rw [MapsTo, table] at maps_to
          cases maps_to
      | some root =>
          rw [mapsTo_extents table] at maps_to maps_to'
          obtain ⟨iNum, lNum, holds, rfl⟩ := maps_to
          obtain ⟨iNum', lNum', holds', rfl⟩ := maps_to'
          obtain ⟨rfl, rfl⟩ := (wellMapped.roots _ _ table).holds_unique holds holds'
          rfl

/-- The logical page at which a leaf of an index node starts. -/
def leafStart (root : Root) (rNum iNum slot : Nat) : Nat :=
  rNum * numPagePerRoot + (root.leaf iNum slot).lpn

theorem WellMapped.row {maps : Nat → RootMap} (wellMapped : WellMapped maps) {rNum iNum : Nat}
    {root : Root} (table : maps rNum = .extents (some root)) (iNum_lt : iNum < indexNodeSize)
    (used : (root.iNode iNum).used = true) :
    Row (MapsTo maps) (root.leaf iNum) (leafStart root rNum iNum) := by
  have formed := wellMapped.roots rNum root table
  have index_le := formed.index_le iNum_lt used
  refine ⟨fun slot slot_lt leaf_used => ?_, fun slot slot_lt leaf_used => ?_,
    fun _ _ _ => mapsTo_functional wellMapped, wellMapped.injective⟩
  · obtain ⟨size_pos, -, le, -, -⟩ := formed.leaf_used iNum iNum_lt used slot slot_lt leaf_used
    refine ⟨size_pos, fun offset offset_lt => ?_⟩
    have entries : numPagePerRoot = 2048 := rfl
    have page : leafStart root rNum iNum slot + offset =
        rNum * numPagePerRoot + ((root.leaf iNum slot).lpn + offset) := by
      rw [leafStart, Nat.add_assoc]
    have quotient : (leafStart root rNum iNum slot + offset) / numPagePerRoot = rNum := by
      rw [page, entries]
      omega
    have remainder : (leafStart root rNum iNum slot + offset) % numPagePerRoot =
        (root.leaf iNum slot).lpn + offset := by
      rw [page, entries]
      omega
    rw [mapsTo_extents (by rw [quotient]; exact table), remainder]
    exact ⟨iNum, slot, ⟨iNum_lt, used, slot_lt, leaf_used, by omega, by omega⟩, by omega⟩
  · obtain ⟨used', order⟩ := formed.leaf_next iNum iNum_lt used slot slot_lt leaf_used
    refine ⟨used', ?_⟩
    rw [leafStart, leafStart]
    omega

theorem contains_iff {root : Root} {rNum iNum page : Nat} (iNum_lt : iNum < indexNodeSize)
    (used : (root.iNode iNum).used = true) (inside : page / numPagePerRoot = rNum) :
    Row.Contains (root.leaf iNum) (leafStart root rNum iNum) page ↔
      ∃ slot, root.Holds iNum slot (page % numPagePerRoot) := by
  have split := Nat.div_add_mod page numPagePerRoot
  rw [inside, Nat.mul_comm] at split
  constructor
  · rintro ⟨slot, slot_lt, leaf_used, le, lt⟩
    rw [leafStart] at le lt
    exact ⟨slot, iNum_lt, used, slot_lt, leaf_used, by omega, by omega⟩
  · rintro ⟨slot, holds⟩
    have le := holds.le
    have lt := holds.lt
    refine ⟨slot, holds.lNum_lt, holds.used, ?_, ?_⟩
    · rw [leafStart]
      omega
    · rw [leafStart]
      omega

/-- What the reads of a part should be. -/
structure PartReads (maps : Nat → RootMap) (first count : Nat) (reads : List (Nat × Nat)) : Prop where
  ordered : reads.Pairwise fun read later => read.1 < later.1
  within : ∀ read ∈ reads, first ≤ read.1 ∧ read.1 < first + count
  covers : ∀ lpn ppn, first ≤ lpn → lpn < first + count → MapsTo maps lpn ppn → (lpn, ppn) ∈ reads

/-- The mapped pages of a part come first in it, in leaves of one index node whose slots stand for
the rest. -/
structure InLeaves (maps : Nat → RootMap) (root : Root) (iNum lNum first count : Nat) : Prop where
  holds : root.Holds iNum lNum (first % numPagePerRoot)
  slots : first % numPagePerRoot + count ≤
    (root.leaf iNum lNum).lpn + (root.leaf iNum lNum).size + pagesBehind (root.leaf iNum) lNum
  gapless : ∀ page, first ≤ page → page < first + count → Mapped maps page →
    ∀ between, first ≤ between → between ≤ page →
      ∃ slot, root.Holds iNum slot (between % numPagePerRoot)

/-- A part whose mapped pages are read; `carried` holds for the page number from the part before. -/
def PartReadable (maps : Nat → RootMap) (carried : Nat → Prop) (first count : Nat) : Prop :=
  match maps (first / numPagePerRoot) with
  | .pages _ => ∀ lpn ppn, first ≤ lpn → lpn < first + count → MapsTo maps lpn ppn →
      lpn = first ∧ carried ppn
  | .extents none => True
  | .extents (some root) =>
      (∀ lpn, first ≤ lpn → lpn < first + count → ¬ Mapped maps lpn) ∨
        ∃ iNum lNum, InLeaves maps root iNum lNum first count

section Parts

variable {maps : Nat → RootMap} {sectorsPerPage first count tSectors : Nat} {reader : Reader}
  {root : Root} {iNum lNum : Nat}

/-- The pages that are left in the leaf of the first page. -/
def leafLeft (root : Root) (iNum lNum first : Nat) : Nat :=
  (root.leaf iNum lNum).lpn + (root.leaf iNum lNum).size - first % numPagePerRoot

/-- The physical page of the first page. -/
def firstPpn (root : Root) (iNum lNum first : Nat) : Nat :=
  (root.leaf iNum lNum).ppn + (first % numPagePerRoot - (root.leaf iNum lNum).lpn)

theorem firstPpn_le (wellMapped : WellMapped maps)
    (table : maps (first / numPagePerRoot) = .extents (some root))
    (holds : root.Holds iNum lNum (first % numPagePerRoot)) :
    firstPpn root iNum lNum first + leafLeft root iNum lNum first ≤ unmapped := by
  have le := holds.le
  have lt := holds.lt
  obtain ⟨-, -, -, -, ppn_le⟩ := (wellMapped.roots _ root table).leaf_used iNum holds.iNum_lt
    holds.index_used lNum holds.lNum_lt holds.used
  rw [firstPpn, leafLeft]
  omega

/-- The leaf of the first page ends where its pages that are left end. -/
theorem leafStart_add (holds : root.Holds iNum lNum (first % numPagePerRoot)) :
    leafStart root (first / numPagePerRoot) iNum lNum + (root.leaf iNum lNum).size =
      first + leafLeft root iNum lNum first := by
  have lt := holds.lt
  have split : first / numPagePerRoot * numPagePerRoot + first % numPagePerRoot = first :=
    Nat.div_add_mod' first numPagePerRoot
  unfold leafStart leafLeft
  generalize first / numPagePerRoot * numPagePerRoot = base at split ⊢
  omega

theorem lookup_held (wellMapped : WellMapped maps)
    (table : maps (first / numPagePerRoot) = .extents (some root))
    (holds : root.Holds iNum lNum (first % numPagePerRoot)) :
    pmGetPhysicalAddress maps first = some (some (.leaf iNum lNum (root.leaf iNum lNum))) := by
  have formed := wellMapped.roots _ root table
  have page_lt : first % numPagePerRoot < numPagePerRoot := Nat.mod_lt _ (by decide)
  rw [pmGetPhysicalAddress, table]
  dsimp only
  obtain ⟨iNum', lNum', holds', found⟩ | ⟨missing, -⟩ := formed.pmReadExtmap_spec page_lt
  · obtain ⟨rfl, rfl⟩ := formed.holds_unique holds holds'
    rw [found]
    rfl
  · exact absurd holds (missing iNum lNum)

theorem lookup_missing (wellMapped : WellMapped maps)
    (table : maps (first / numPagePerRoot) = .extents (some root))
    (missing : ∀ iNum lNum, ¬ root.Holds iNum lNum (first % numPagePerRoot)) :
    pmGetPhysicalAddress maps first = some none := by
  have formed := wellMapped.roots _ root table
  have page_lt : first % numPagePerRoot < numPagePerRoot := Nat.mod_lt _ (by decide)
  rw [pmGetPhysicalAddress, table]
  dsimp only
  obtain ⟨iNum, lNum, holds, -⟩ | ⟨-, found⟩ := formed.pmReadExtmap_spec page_lt
  · exact absurd holds (missing iNum lNum)
  · rw [found]
    rfl

theorem readPart_missing (wellMapped : WellMapped maps) {table : Option Root}
    (found : maps (first / numPagePerRoot) = .extents table)
    (missing : ∀ root, table = some root → ∀ iNum lNum,
      ¬ root.Holds iNum lNum (first % numPagePerRoot)) :
    readPart sectorsPerPage maps first tSectors reader =
      some ({ reader with remain := tSectors }, tSectors) := by
  rw [readPart, found]
  dsimp only
  cases table with
  | none =>
      have lookup : pmGetPhysicalAddress maps first = some none := by
        rw [pmGetPhysicalAddress, found]
      rw [lookup]
      rfl
  | some root =>
      rw [lookup_missing wellMapped found (missing root rfl)]
      rfl

theorem readPart_held (wellMapped : WellMapped maps)
    (table : maps (first / numPagePerRoot) = .extents (some root))
    (holds : root.Holds iNum lNum (first % numPagePerRoot)) :
    readPart sectorsPerPage maps first tSectors reader =
      walkLeaves sectorsPerPage root (leafNodeSize + 1) iNum lNum (root.leaf iNum lNum)
        (leafLeft root iNum lNum first) first tSectors
        { reader with remain := tSectors, ppn := firstPpn root iNum lNum first } := by
  have le := holds.le
  have lt := holds.lt
  obtain ⟨-, -, -, -, ppn_le⟩ := (wellMapped.roots _ root table).leaf_used iNum holds.iNum_lt
    holds.index_used lNum holds.lNum_lt holds.used
  have entries : numPagePerRoot = 2048 := rfl
  have last : unmapped = 2 ^ 32 - 1 := rfl
  have offset : subWord (first % numPagePerRoot) (root.leaf iNum lNum).lpn =
      first % numPagePerRoot - (root.leaf iNum lNum).lpn := by
    rw [subWord]
    omega
  have left : subWord (root.leaf iNum lNum).size
      (first % numPagePerRoot - (root.leaf iNum lNum).lpn) = leafLeft root iNum lNum first := by
    rw [subWord, leafLeft]
    omega
  have ppn : word ((root.leaf iNum lNum).ppn +
      (first % numPagePerRoot - (root.leaf iNum lNum).lpn)) = firstPpn root iNum lNum first := by
    rw [word, firstPpn]
    omega
  rw [readPart, table]
  dsimp only
  rw [lookup_held wellMapped table holds, Option.bind_some]
  dsimp only
  rw [offset, left, ppn]

/-- What `readPart` returns, and when its reads are right. -/
def PartSpec (maps : Nat → RootMap) (carried : Nat → Prop) (first count : Nat) (reader : Reader) :
    Option (Reader × Nat) → Prop
  | none => ¬ PartReadable maps carried first count
  | some (final, _) => ∃ reads, final.reads = reader.reads ++ reads ∧
      reads.Pairwise (fun read later => read.1 < later.1) ∧
      (∀ read ∈ reads, first ≤ read.1 ∧ read.1 < first + count) ∧
      ((∀ lpn ppn, first ≤ lpn → lpn < first + count → MapsTo maps lpn ppn → (lpn, ppn) ∈ reads) ↔
        PartReadable maps carried first count)

theorem mapped_of_holds {page : Nat} (table : maps (page / numPagePerRoot) = .extents (some root))
    (holds : root.Holds iNum lNum (page % numPagePerRoot)) : Mapped maps page :=
  ⟨_, (mapsTo_extents table).mpr ⟨iNum, lNum, holds, rfl⟩⟩

theorem div_of_inside (inside : first % numPagePerRoot + count ≤ numPagePerRoot) {page : Nat}
    (le : first ≤ page) (lt : page < first + count) :
    page / numPagePerRoot = first / numPagePerRoot := by
  have entries : numPagePerRoot = 2048 := rfl
  rw [entries] at inside ⊢
  omega

/-- A part whose first page is in a leaf. -/
theorem partReadable_held (wellMapped : WellMapped maps)
    (table : maps (first / numPagePerRoot) = .extents (some root))
    (holds : root.Holds iNum lNum (first % numPagePerRoot)) (positive : 0 < count)
    (inside : first % numPagePerRoot + count ≤ numPagePerRoot) (carried : Nat → Prop) :
    PartReadable maps carried first count ↔
      count ≤ leafLeft root iNum lNum first + pagesBehind (root.leaf iNum) lNum ∧
        Row.Gapless (MapsTo maps) (root.leaf iNum)
          (leafStart root (first / numPagePerRoot) iNum) first count := by
  have lt := holds.lt
  have contains : ∀ page, first ≤ page → page < first + count →
      (Row.Contains (root.leaf iNum) (leafStart root (first / numPagePerRoot) iNum) page ↔
        ∃ slot, root.Holds iNum slot (page % numPagePerRoot)) := fun page le lt =>
    contains_iff holds.iNum_lt holds.index_used (div_of_inside inside le lt)
  rw [PartReadable, table]
  dsimp only
  rw [or_iff_right fun unmapped =>
    unmapped first le_rfl (Nat.lt_add_of_pos_right positive) (mapped_of_holds table holds)]
  constructor
  · rintro ⟨iNum', lNum', here, slots, gapless⟩
    obtain ⟨rfl, rfl⟩ := (wellMapped.roots _ root table).holds_unique holds here
    refine ⟨by rw [leafLeft]; omega, fun page ppn le lt maps_to between le' le'' => ?_⟩
    exact (contains between le' (by omega)).mpr (gapless page le lt ⟨ppn, maps_to⟩ between le' le'')
  · rintro ⟨slots, gapless⟩
    rw [leafLeft] at slots
    refine ⟨iNum, lNum, holds, by omega, ?_⟩
    rintro page le lt ⟨ppn, maps_to⟩ between le' le''
    exact (contains between le' (by omega)).mp (gapless page ppn le lt maps_to between le' le'')

theorem readPart_held_spec (wellMapped : WellMapped maps)
    (table : maps (first / numPagePerRoot) = .extents (some root))
    (holds : root.Holds iNum lNum (first % numPagePerRoot))
    (counts : Counts sectorsPerPage count { reader with remain := tSectors }) (positive : 0 < count)
    (inside : first % numPagePerRoot + count ≤ numPagePerRoot) (carried : Nat → Prop) :
    PartSpec maps carried first count reader
      (readPart sectorsPerPage maps first tSectors reader) := by
  have formed := wellMapped.roots _ root table
  have le := holds.le
  have lt := holds.lt
  have steady : Steady root iNum lNum (leafLeft root iNum lNum first)
      { reader with remain := tSectors, ppn := firstPpn root iNum lNum first } :=
    .inr ⟨by rw [leafLeft]; omega, holds.used, firstPpn_le wellMapped table holds⟩
  have reads_eq := @walkLeaves_reads root sectorsPerPage iNum lNum _ first tSectors count
    (leafNodeSize + 1) _ formed holds.iNum_lt holds.index_used holds.lNum_lt steady
    (counts.read reader.reads (firstPpn root iNum lNum first))
  have slots := @walkPages_isSome_iff (root.leaf iNum) (leafNodeSize + 1) lNum
    (leafLeft root iNum lNum first) first (firstPpn root iNum lNum first) count holds.lNum_lt
    (by omega)
  have readable := partReadable_held wellMapped table holds positive inside carried
  rw [readPart_held wellMapped table holds]
  cases walked : walkPages (root.leaf iNum) (leafNodeSize + 1) lNum (leafLeft root iNum lNum first)
      first (firstPpn root iNum lNum first) count with
  | none =>
      rw [walked] at reads_eq slots
      rw [Option.map_none, Option.map_eq_none_iff] at reads_eq
      rw [reads_eq, PartSpec, readable, ← slots]
      exact fun both => Bool.false_ne_true both.1
  | some reads =>
      rw [walked] at reads_eq slots
      rw [Option.map_some, Option.map_eq_some_iff] at reads_eq
      obtain ⟨⟨final, rest⟩, result, reads_eq⟩ := reads_eq
      obtain ⟨ordered, within⟩ := walkPages_ordered walked
      rw [result, PartSpec, readable]
      refine ⟨reads, reads_eq, ordered, within, ?_⟩
      rw [and_iff_right (slots.mp rfl)]
      exact (wellMapped.row table holds.iNum_lt holds.index_used).covers_iff holds.lNum_lt holds.used
        (by rw [leafLeft]; omega) (by rw [leafLeft, firstPpn]; omega) (leafStart_add holds) walked

theorem readPart_missing_spec (wellMapped : WellMapped maps) {table : Option Root}
    (found : maps (first / numPagePerRoot) = .extents table)
    (missing : ∀ root, table = some root → ∀ iNum lNum,
      ¬ root.Holds iNum lNum (first % numPagePerRoot))
    (inside : first % numPagePerRoot + count ≤ numPagePerRoot) (carried : Nat → Prop) :
    PartSpec maps carried first count reader
      (readPart sectorsPerPage maps first tSectors reader) := by
  rw [readPart_missing wellMapped found missing]
  refine ⟨[], (List.append_nil _).symm, List.Pairwise.nil, by simp, ?_⟩
  rw [PartReadable, found]
  cases table with
  | none =>
      refine iff_of_true (fun lpn ppn le lt maps_to => ?_) trivial
      rw [MapsTo, div_of_inside inside le lt, found] at maps_to
      exact maps_to.elim
  | some root =>
      dsimp only
      rw [or_iff_left fun ⟨iNum, lNum, here⟩ => missing root rfl iNum lNum here.holds]
      constructor
      · rintro covers lpn le lt ⟨ppn, maps_to⟩
        exact absurd (covers lpn ppn le lt maps_to) List.not_mem_nil
      · intro unmapped lpn ppn le lt maps_to
        exact absurd ⟨ppn, maps_to⟩ (unmapped lpn le lt)

end Parts

/-! ## Parts in a root with a page map -/

/-- The reads of consecutive pages, each with the value of the page before; a page without a value
leaves the one before it. -/
def entryReads (value : Nat → Option Nat) : (count lpn ppn : Nat) → List (Nat × Nat)
  | 0, _, _ => []
  | count + 1, lpn, ppn => (lpn, ppn) :: entryReads value count (lpn + 1) ((value lpn).getD ppn)

theorem entryReads_within {value : Nat → Option Nat} {count lpn ppn : Nat} :
    ∀ read ∈ entryReads value count lpn ppn, lpn ≤ read.1 ∧ read.1 < lpn + count := by
  induction count generalizing lpn ppn with
  | zero => exact fun read member => absurd member List.not_mem_nil
  | succ count ih =>
      intro read member
      rcases List.mem_cons.mp member with rfl | later
      · dsimp only
        omega
      · have within := ih read later
        omega

theorem entryReads_ordered {value : Nat → Option Nat} {count lpn ppn : Nat} :
    (entryReads value count lpn ppn).Pairwise fun read later => read.1 < later.1 := by
  induction count generalizing lpn ppn with
  | zero => exact List.Pairwise.nil
  | succ count ih =>
      refine List.Pairwise.cons (fun read member => ?_) ih
      exact Nat.lt_of_succ_le (entryReads_within read member).1

/-- Where every page has a value, a page behind the first one is read at the value before it. -/
theorem entryReads_value {value : Nat → Option Nat} {count lpn ppn page place : Nat}
    {entry : Nat → Nat} (total : ∀ page, value page = some (entry page)) (behind : lpn < page)
    (member : (page, place) ∈ entryReads value count lpn ppn) : place = entry (page - 1) := by
  induction count generalizing lpn ppn with
  | zero => exact absurd member List.not_mem_nil
  | succ count ih =>
      rcases List.mem_cons.mp member with same | later
      · have eq := congrArg Prod.fst same
        dsimp only at eq
        omega
      · rw [total, Option.getD_some] at later
        rcases Nat.eq_or_lt_of_le (show lpn + 1 ≤ page from behind) with rfl | further
        · cases count with
          | zero => exact absurd later List.not_mem_nil
          | succ count =>
              rcases List.mem_cons.mp later with same | after
              · exact congrArg Prod.snd same
              · have order := (entryReads_within _ after).1
                dsimp only at order
                omega
        · exact ih further later

/-- The value that is left behind the pages. -/
def carriedValue (value : Nat → Option Nat) : (count lpn ppn : Nat) → Nat
  | 0, _, ppn => ppn
  | count + 1, lpn, ppn => carriedValue value count (lpn + 1) ((value lpn).getD ppn)

theorem carriedValue_total {value : Nat → Option Nat} {count lpn ppn : Nat} {entry : Nat → Nat}
    (total : ∀ page, value page = some (entry page)) (positive : 0 < count) :
    carriedValue value count lpn ppn = entry (lpn + count - 1) := by
  induction count generalizing lpn ppn with
  | zero => omega
  | succ count ih =>
      rw [carriedValue, total, Option.getD_some]
      rcases Nat.eq_zero_or_pos count with rfl | more
      · rfl
      · rw [ih more]
        congr 1
        omega

theorem carriedValue_none {value : Nat → Option Nat} {count lpn ppn : Nat}
    (missing : ∀ page, value page = none) : carriedValue value count lpn ppn = ppn := by
  induction count generalizing lpn with
  | zero => rfl
  | succ count ih =>
      rw [carriedValue, missing, Option.getD_none]
      exact ih

section Entries

variable {maps : Nat → RootMap} {sectorsPerPage first count tSectors stop rounds : Nat}
  {reader : Reader} {entries : Option PageMap}

/-- The entry of a page. -/
def entryOf (entries : Option PageMap) (lpn : Nat) : Option Nat :=
  entries.map fun entries => entries (lpn % numPagePerRoot)

/-- What the loop over the pages leaves. -/
structure EntriesRead (entries : Option PageMap) (stop first count : Nat) (reader final : Reader) :
    Prop where
  reads : final.reads = reader.reads ++ entryReads (entryOf entries) count first reader.ppn
  remain : final.remain = 0
  before : Before stop final
  leftSkip : reader.leftSkip = 0 ∨ 0 < count → final.leftSkip = 0
  ppn : final.ppn = carriedValue (entryOf entries) count first reader.ppn

theorem readEntries_spec (stop_le : stop ≤ 2 ^ 32)
    (table : ∀ page, first ≤ page → page < first + count →
      maps (page / numPagePerRoot) = .pages entries)
    (counts : Counts sectorsPerPage count reader) (before : Before stop reader)
    (place : 0 < reader.remain → stop - reader.remain = first * sectorsPerPage + reader.leftSkip)
    (enough : reader.remain ≤ rounds) :
    ∃ final, readEntries sectorsPerPage maps rounds reader = some final ∧
      EntriesRead entries stop first count reader final := by
  induction rounds generalizing first count reader with
  | zero =>
      have none_left : reader.remain = 0 := by omega
      obtain rfl := counts.done none_left
      exact ⟨reader, rfl, (List.append_nil _).symm, none_left, before,
        fun alternatives => alternatives.resolve_right (by omega), rfl⟩
  | succ rounds ih =>
      rw [readEntries]
      rcases Nat.eq_zero_or_pos reader.remain with none_left | more
      · obtain rfl := counts.done none_left
        rw [if_pos none_left]
        exact ⟨reader, rfl, (List.append_nil _).symm, none_left, before,
          fun alternatives => alternatives.resolve_right (by omega), rfl⟩
      · obtain ⟨count, rfl⟩ : ∃ fewer, count = fewer + 1 :=
          Nat.exists_eq_add_one_of_ne_zero fun none =>
            more.ne' (counts.remain_eq_zero_iff.mpr none)
        have page_pos := Nat.zero_lt_of_lt counts.skip_lt
        have remain_le := before.remain_le
        have here := place more
        have lba : reader.lba = first * sectorsPerPage + reader.leftSkip := by
          rw [before.lba, word, Nat.mod_eq_of_lt (by omega), here]
        have page : reader.lba / sectorsPerPage = first := by
          rw [lba, Nat.mul_comm, Nat.mul_add_div page_pos, Nat.div_eq_of_lt counts.skip_lt,
            Nat.add_zero]
        have lookup : pmGetPhysicalAddress maps first =
            some ((entryOf entries first).map Address.entry) := by
          rw [pmGetPhysicalAddress, table first le_rfl (by omega), entryOf, Option.map_map]
          rfl
        have value : (((entryOf entries first).map Address.entry).map Address.ppn).getD reader.ppn =
            (entryOf entries first).getD reader.ppn := by
          rw [Option.map_map]
          cases entryOf entries first <;> rfl
        rw [if_neg more.ne']
        dsimp only
        rw [page, lookup, Option.bind_some, value]
        have sects := @pageSects_eq _ _ reader.remain counts.skip_lt
        obtain ⟨final, result, read⟩ := @ih (first + 1) count
          (Reader.advance sectorsPerPage
            { reader.ssdPageRead first with ppn := (entryOf entries first).getD reader.ppn })
          (fun page le lt => table page (by omega) (by omega))
          (counts.read _ _).advance ((before.read _ _).advance counts.skip_lt)
          (fun more' => by
            change stop - (reader.remain - pageSects sectorsPerPage reader.leftSkip reader.remain) =
              (first + 1) * sectorsPerPage + 0
            have left : 0 < reader.remain -
              pageSects sectorsPerPage reader.leftSkip reader.remain := more'
            rw [Nat.succ_mul]
            generalize first * sectorsPerPage = start at here ⊢
            rw [sects] at left ⊢
            have skip_lt := counts.skip_lt
            omega)
          (Nat.le_of_lt_succ
            ((@remain_advance_lt sectorsPerPage reader counts.skip_lt more).trans_le enough))
        refine ⟨final, result, ?_, read.remain, read.before, fun _ => read.leftSkip (.inl rfl),
          read.ppn⟩
        rw [read.reads]
        exact List.append_assoc ..

theorem mapsTo_pages {entry : PageMap} {page ppn : Nat}
    (table : maps (page / numPagePerRoot) = .pages (some entry)) :
    MapsTo maps page ppn ↔ entry (page % numPagePerRoot) = ppn ∧ ppn ≠ unmapped := by
  rw [MapsTo, table]

/-- A page map is read right if no page but the first is mapped, and the first one is read at the
page number from before. -/
theorem entryReads_covers_iff (wellMapped : WellMapped maps)
    (table : maps (first / numPagePerRoot) = .pages entries) (positive : 0 < count)
    (inside : first % numPagePerRoot + count ≤ numPagePerRoot) {carried : Nat → Prop} {ppn : Nat}
    (carry : ∀ place, MapsTo maps first place → (place = ppn ↔ carried place)) :
    (∀ page place, first ≤ page → page < first + count → MapsTo maps page place →
        (page, place) ∈ entryReads (entryOf entries) count first ppn) ↔
      PartReadable maps carried first count := by
  have tables : ∀ page, first ≤ page → page < first + count →
      maps (page / numPagePerRoot) = .pages entries := fun page le lt => by
    rw [div_of_inside inside le lt, table]
  rw [PartReadable, table]
  dsimp only
  cases entries with
  | none =>
      have missing : ∀ page place, first ≤ page → page < first + count →
          ¬ MapsTo maps page place := by
        intro page place le lt maps_to
        rw [MapsTo, tables page le lt] at maps_to
        exact maps_to
      exact iff_of_true (fun page place le lt maps_to => absurd maps_to (missing page place le lt))
        fun page place le lt maps_to => absurd maps_to (missing page place le lt)
  | some entry =>
      obtain ⟨fewer, rfl⟩ := Nat.exists_eq_add_one_of_ne_zero positive.ne'
      constructor
      · intro covers page place le lt maps_to
        have member := covers page place le lt maps_to
        rcases Nat.eq_or_lt_of_le le with rfl | behind
        · refine ⟨rfl, (carry place maps_to).mp ?_⟩
          rcases List.mem_cons.mp member with same | later
          · exact congrArg Prod.snd same
          · have order := (entryReads_within _ later).1
            dsimp only at order
            omega
        · have value := @entryReads_value (entryOf (some entry)) _ _ _ _ _
            (fun page => entry (page % numPagePerRoot)) (fun _ => rfl) behind member
          have mapped := ((mapsTo_pages (tables page le lt)).mp maps_to).2
          have previous : MapsTo maps (page - 1) place :=
            (mapsTo_pages (tables (page - 1) (by omega) (by omega))).mpr ⟨value.symm, mapped⟩
          have same := wellMapped.injective _ _ _ maps_to previous
          omega
      · intro readable page place le lt maps_to
        obtain ⟨rfl, known⟩ := readable page place le lt maps_to
        rw [(carry place maps_to).mpr known]
        exact List.mem_cons_self

theorem readPart_pages (wellMapped : WellMapped maps)
    (table : maps (first / numPagePerRoot) = .pages entries) (positive : 0 < count)
    (inside : first % numPagePerRoot + count ≤ numPagePerRoot) (stop_le : stop ≤ 2 ^ 32)
    (counts : Counts sectorsPerPage count { reader with remain := tSectors })
    (before : Before stop { reader with remain := tSectors })
    (place : stop - tSectors = first * sectorsPerPage + reader.leftSkip) {carried : Nat → Prop}
    (carry : ∀ ppn, MapsTo maps first ppn → (ppn = reader.ppn ↔ carried ppn)) :
    ∃ final, readPart sectorsPerPage maps first tSectors reader = some (final, tSectors) ∧
      EntriesRead entries stop first count { reader with remain := tSectors } final ∧
      PartSpec maps carried first count reader (some (final, tSectors)) := by
  obtain ⟨final, result, read⟩ := @readEntries_spec maps sectorsPerPage first count stop tSectors
    { reader with remain := tSectors } entries stop_le
    (fun page le lt => by rw [div_of_inside inside le lt, table]) counts before (fun _ => place)
    le_rfl
  refine ⟨final, ?_, read, _, read.reads, entryReads_ordered, entryReads_within, ?_⟩
  · rw [readPart, table]
    dsimp only
    rw [result, Option.map_some]
  · exact entryReads_covers_iff wellMapped table positive inside carry

end Entries

/-! ## Requests -/

section Requests

variable {maps : Nat → RootMap} {sectorsPerPage lba sectors : Nat} {reader : Reader}

/-- The pages of a request. -/
def requestPages (sectorsPerPage lba sectors : Nat) : Nat :=
  lastPage sectorsPerPage lba sectors - lba / sectorsPerPage + 1

theorem WellFormed.counts (request : WellFormed sectorsPerPage lba sectors)
    (leftSkip : reader.leftSkip = lba % sectorsPerPage) :
    Counts sectorsPerPage (requestPages sectorsPerPage lba sectors)
      { reader with remain := sectors } := by
  have page_pos := request.page_pos
  have positive := request.sectors_pos
  refine ⟨by rw [leftSkip]; exact Nat.mod_lt _ page_pos, fun _ => ?_, fun none => by
    have zero : sectors = 0 := none
    omega⟩
  change _ = pageCount sectorsPerPage (reader.leftSkip + sectors)
  have split := Nat.div_add_mod lba sectorsPerPage
  have total : lba + sectors - 1 =
      sectorsPerPage * (lba / sectorsPerPage) + (lba % sectorsPerPage + sectors - 1) := by omega
  have pages : lba % sectorsPerPage + sectors + sectorsPerPage - 1 =
      lba % sectorsPerPage + sectors - 1 + sectorsPerPage := by omega
  rw [requestPages, request.lastPage_eq, leftSkip, pageCount, pages, Nat.add_div_right _ page_pos,
    total, Nat.mul_add_div page_pos, Nat.add_sub_cancel_left]

theorem WellFormed.before (request : WellFormed sectorsPerPage lba sectors)
    (start : reader.lba = lba) : Before (lba + sectors) { reader with remain := sectors } := by
  have positive := request.sectors_pos
  have numbers := request.numbers
  refine ⟨Nat.le_add_left .., ?_⟩
  change reader.lba = word (lba + sectors - sectors)
  rw [start, word]
  omega

theorem requestPages_pos : 0 < requestPages sectorsPerPage lba sectors := Nat.succ_pos _

theorem requestPages_add (request : WellFormed sectorsPerPage lba sectors) :
    lba / sectorsPerPage + requestPages sectorsPerPage lba sectors =
      lastPage sectorsPerPage lba sectors + 1 := by
  have le := request.first_le_last
  rw [requestPages]
  omega

/-- A part in one root. -/
theorem inside_of_sameRegion (request : WellFormed sectorsPerPage lba sectors)
    (same : lba / sectorsPerPage / numPagePerRoot =
      lastPage sectorsPerPage lba sectors / numPagePerRoot) :
    lba / sectorsPerPage % numPagePerRoot + requestPages sectorsPerPage lba sectors ≤
      numPagePerRoot := by
  have le := request.first_le_last
  have entries : numPagePerRoot = 2048 := rfl
  rw [requestPages]
  rw [entries] at same ⊢
  omega

/-- The reader stands at the part, if the part has a page map. -/
def AtPart (maps : Nat → RootMap) (sectorsPerPage lba : Nat) (carried : Nat → Prop)
    (reader : Reader) : Prop :=
  ∀ entries, maps (lba / sectorsPerPage / numPagePerRoot) = .pages entries → reader.lba = lba ∧
    ∀ ppn, MapsTo maps (lba / sectorsPerPage) ppn → (ppn = reader.ppn ↔ carried ppn)

theorem readPart_spec (wellMapped : WellMapped maps)
    (request : WellFormed sectorsPerPage lba sectors)
    (same : lba / sectorsPerPage / numPagePerRoot =
      lastPage sectorsPerPage lba sectors / numPagePerRoot)
    (leftSkip : reader.leftSkip = lba % sectorsPerPage) {carried : Nat → Prop}
    (atPart : AtPart maps sectorsPerPage lba carried reader) :
    PartSpec maps carried (lba / sectorsPerPage) (requestPages sectorsPerPage lba sectors) reader
      (readPart sectorsPerPage maps (lba / sectorsPerPage) sectors reader) := by
  have inside := inside_of_sameRegion request same
  have counts := request.counts leftSkip
  cases table : maps (lba / sectorsPerPage / numPagePerRoot) with
  | pages entries =>
      obtain ⟨start, carry⟩ := atPart entries table
      have place : lba + sectors - sectors =
          lba / sectorsPerPage * sectorsPerPage + reader.leftSkip := by
        rw [leftSkip, Nat.div_add_mod', Nat.add_sub_cancel]
      obtain ⟨final, result, -, spec⟩ := readPart_pages wellMapped table requestPages_pos inside
        request.numbers counts (request.before start) place carry
      rw [result]
      exact spec
  | extents table' =>
      by_cases held : ∃ root iNum lNum, table' = some root ∧
          root.Holds iNum lNum (lba / sectorsPerPage % numPagePerRoot)
      · obtain ⟨root, iNum, lNum, rfl, holds⟩ := held
        exact readPart_held_spec wellMapped table holds counts requestPages_pos inside carried
      · exact readPart_missing_spec wellMapped table
          (fun root some_root iNum lNum holds => held ⟨root, iNum, lNum, some_root, holds⟩) inside
          carried

/-- The physical page behind the one of the last page of a part with extents. -/
def Continues (maps : Nat → RootMap) (boundary ppn : Nat) : Prop :=
  ∃ table previous, maps ((boundary - 1) / numPagePerRoot) = .extents table ∧
    MapsTo maps (boundary - 1) previous ∧ ppn = previous + 1

/-- The first part of a divided request hands its end over to the second: it has a page map; or it
is in one leaf; or it reads nothing, starts at a page, and no page map follows. -/
def EndsAtBoundary (maps : Nat → RootMap) (sectorsPerPage lba boundary : Nat) : Prop :=
  match maps (lba / sectorsPerPage / numPagePerRoot) with
  | .pages _ => True
  | .extents table =>
      (¬ Mapped maps (lba / sectorsPerPage) ∧ lba % sectorsPerPage = 0 ∧
          ∃ next, maps (boundary / numPagePerRoot) = .extents next) ∨
        ∃ root iNum lNum, table = some root ∧
          root.Holds iNum lNum (lba / sectorsPerPage % numPagePerRoot) ∧
          root.Holds iNum lNum ((boundary - 1) % numPagePerRoot)

/-- The requests whose mapped pages are all read. -/
def ReadableRequest (maps : Nat → RootMap) (sectorsPerPage lba sectors : Nat) : Prop :=
  if lba = 0 ∧ sectors = 1 then
    ¬ Mapped maps 0
  else if isSameRegion sectorsPerPage lba sectors then
    PartReadable maps (fun _ => False) (lba / sectorsPerPage)
      (requestPages sectorsPerPage lba sectors)
  else
    let boundary := (lba / sectorsPerPage / numPagePerRoot + 1) * numPagePerRoot
    PartReadable maps (fun _ => False) (lba / sectorsPerPage) (boundary - lba / sectorsPerPage) ∧
      EndsAtBoundary maps sectorsPerPage lba boundary ∧
      PartReadable maps (Continues maps boundary) boundary
        (lastPage sectorsPerPage lba sectors - boundary + 1)

/-- The state in which the first part of a divided request leaves the reader. -/
structure HandsOver (maps : Nat → RootMap) (sectorsPerPage lba size boundary : Nat) (final : Reader)
    (rest : Nat) : Prop where
  iff : (rest = size ∧ final.leftSkip = 0 ∧ startPage sectorsPerPage maps boundary final = boundary) ↔
    EndsAtBoundary maps sectorsPerPage lba boundary
  rest_le : rest ≤ size
  atPart : EndsAtBoundary maps sectorsPerPage lba boundary →
    AtPart maps sectorsPerPage (boundary * sectorsPerPage) (Continues maps boundary) final

theorem startPage_of_lba {boundary : Nat} (page_pos : 0 < sectorsPerPage)
    (start : reader.lba = boundary * sectorsPerPage) :
    startPage sectorsPerPage maps boundary reader = boundary := by
  rw [startPage]
  split
  · rw [start, Nat.mul_div_cancel _ page_pos]
  · rfl

/-- The cut of a request at the next root. -/
structure Divided (sectorsPerPage lba size boundary : Nat) : Prop where
  request : WellFormed sectorsPerPage lba size
  boundary_eq : boundary = (lba / sectorsPerPage / numPagePerRoot + 1) * numPagePerRoot
  last : lastPage sectorsPerPage lba size + 1 = boundary
  stop : lba + size = boundary * sectorsPerPage
  stop_lt : boundary * sectorsPerPage < 2 ^ 32

namespace Divided

variable {size boundary : Nat} (divided : Divided sectorsPerPage lba size boundary)
include divided

theorem same : lba / sectorsPerPage / numPagePerRoot =
    lastPage sectorsPerPage lba size / numPagePerRoot := by
  have le := divided.request.first_le_last
  have last := divided.last
  have boundary_eq := divided.boundary_eq
  have entries : numPagePerRoot = 2048 := rfl
  rw [entries] at boundary_eq ⊢
  omega

theorem last_root : (boundary - 1) / numPagePerRoot = lba / sectorsPerPage / numPagePerRoot := by
  rw [divided.same]
  congr 1
  have last := divided.last
  omega

theorem last_page : (boundary - 1) % numPagePerRoot =
    lba / sectorsPerPage % numPagePerRoot + requestPages sectorsPerPage lba size - 1 := by
  have sum := requestPages_add divided.request
  have last := divided.last
  have boundary_eq := divided.boundary_eq
  have positive := @requestPages_pos sectorsPerPage lba size
  have entries : numPagePerRoot = 2048 := rfl
  rw [entries] at boundary_eq ⊢
  omega

theorem handsOver_pages (wellMapped : WellMapped maps) {entries : Option PageMap}
    (table : maps (lba / sectorsPerPage / numPagePerRoot) = .pages entries)
    (start : reader.lba = lba) (leftSkip : reader.leftSkip = lba % sectorsPerPage)
    (fresh : reader.ppn = 0) {final : Reader} {rest : Nat}
    (result : readPart sectorsPerPage maps (lba / sectorsPerPage) size reader = some (final, rest)) :
    HandsOver maps sectorsPerPage lba size boundary final rest := by
  have inside := inside_of_sameRegion divided.request divided.same
  have place : lba + size - size =
      lba / sectorsPerPage * sectorsPerPage + reader.leftSkip := by
    rw [leftSkip, Nat.div_add_mod', Nat.add_sub_cancel]
  obtain ⟨final', result', read, -⟩ := @readPart_pages maps sectorsPerPage _ _ size _ reader _
    wellMapped table requestPages_pos inside divided.request.numbers
    (divided.request.counts leftSkip) (divided.request.before start) place (fun ppn => ppn = reader.ppn)
    fun _ _ => Iff.rfl
  rw [result'] at result
  obtain ⟨rfl, rfl⟩ := Prod.mk.inj (Option.some.inj result)
  have lba_eq : final'.lba = boundary * sectorsPerPage := by
    have at_stop := read.before.lba
    rw [read.remain, Nat.sub_zero, divided.stop, word, Nat.mod_eq_of_lt divided.stop_lt] at at_stop
    exact at_stop
  have ends : EndsAtBoundary maps sectorsPerPage lba boundary := by
    rw [EndsAtBoundary, table]
    trivial
  refine ⟨iff_of_true ⟨rfl, read.leftSkip (.inr requestPages_pos),
    startPage_of_lba divided.request.page_pos lba_eq⟩ ends, le_rfl, fun _ next second => ?_⟩
  rw [Nat.mul_div_cancel _ divided.request.page_pos] at second ⊢
  refine ⟨lba_eq, fun ppn maps_to => iff_of_false (fun carried => ?_) ?_⟩
  · cases entries with
    | none =>
        have unchanged : final'.ppn = reader.ppn := read.ppn.trans (carriedValue_none fun _ => rfl)
        have positive := wellMapped.positive _ _ maps_to
        rw [carried, unchanged] at positive
        exact positive.ne' fresh
    | some entry =>
        have total : ∀ page, entryOf (some entry) page = some (entry (page % numPagePerRoot)) :=
          fun _ => rfl
        have value := read.ppn.trans (carriedValue_total total requestPages_pos)
        rw [requestPages_add divided.request, divided.last] at value
        have mapped : ppn ≠ unmapped := by
          cases next with
          | none =>
              rw [MapsTo, second] at maps_to
              exact maps_to.elim
          | some entry' => exact ((mapsTo_pages second).mp maps_to).2
        have previous : MapsTo maps (boundary - 1) ppn :=
          (mapsTo_pages (by rw [divided.last_root]; exact table)).mpr
            ⟨(carried.trans value).symm, mapped⟩
        have same := wellMapped.injective _ _ _ maps_to previous
        have last := divided.last
        omega
  · rintro ⟨table', previous, found, -⟩
    rw [divided.last_root, table] at found
    cases found

theorem handsOver_missing (wellMapped : WellMapped maps) {table : Option Root}
    (found : maps (lba / sectorsPerPage / numPagePerRoot) = .extents table)
    (missing : ∀ root, table = some root → ∀ iNum lNum,
      ¬ root.Holds iNum lNum (lba / sectorsPerPage % numPagePerRoot))
    (start : reader.lba = lba) (leftSkip : reader.leftSkip = lba % sectorsPerPage)
    {final : Reader} {rest : Nat}
    (result : readPart sectorsPerPage maps (lba / sectorsPerPage) size reader = some (final, rest)) :
    HandsOver maps sectorsPerPage lba size boundary final rest := by
  rw [readPart_missing wellMapped found missing] at result
  obtain ⟨rfl, rfl⟩ := Prod.mk.inj (Option.some.inj result)
  have unmapped : ¬ Mapped maps (lba / sectorsPerPage) := by
    rintro ⟨ppn, maps_to⟩
    cases table with
    | none =>
        rw [MapsTo, found] at maps_to
        exact maps_to
    | some root =>
        obtain ⟨iNum, lNum, holds, -⟩ := (mapsTo_extents found).mp maps_to
        exact missing root rfl iNum lNum holds
  have before : lba / sectorsPerPage < boundary := by
    have last := divided.last
    have le := divided.request.first_le_last
    omega
  have ends : EndsAtBoundary maps sectorsPerPage lba boundary ↔ lba % sectorsPerPage = 0 ∧
      ∃ next, maps (boundary / numPagePerRoot) = .extents next := by
    rw [EndsAtBoundary, found]
    dsimp only
    rw [or_iff_left fun ⟨root, iNum, lNum, some_root, holds, _⟩ =>
      missing root some_root iNum lNum holds, and_iff_right unmapped]
  have page : startPage sectorsPerPage maps boundary { reader with remain := size } = boundary ↔
      ∃ next, maps (boundary / numPagePerRoot) = .extents next := by
    rw [startPage]
    cases maps (boundary / numPagePerRoot) with
    | pages entries =>
        refine iff_of_false (fun same => ?_) fun ⟨next, absurd'⟩ => by cases absurd'
        have same' : reader.lba / sectorsPerPage = boundary := same
        rw [start] at same'
        omega
    | extents next => exact iff_of_true rfl ⟨next, rfl⟩
  refine ⟨?_, le_rfl, fun ends' entries second => ?_⟩
  · rw [ends, page, and_iff_right rfl]
    dsimp only
    rw [leftSkip]
  · rw [Nat.mul_div_cancel _ divided.request.page_pos] at second
    obtain ⟨-, next, follows⟩ := ends.mp ends'
    rw [second] at follows
    cases follows

theorem handsOver_held (wellMapped : WellMapped maps) {root : Root} {iNum lNum : Nat}
    (table : maps (lba / sectorsPerPage / numPagePerRoot) = .extents (some root))
    (holds : root.Holds iNum lNum (lba / sectorsPerPage % numPagePerRoot))
    (start : reader.lba = lba) (leftSkip : reader.leftSkip = lba % sectorsPerPage)
    {final : Reader} {rest : Nat}
    (result : readPart sectorsPerPage maps (lba / sectorsPerPage) size reader = some (final, rest)) :
    HandsOver maps sectorsPerPage lba size boundary final rest := by
  have le := holds.le
  have lt := holds.lt
  have mapped := mapped_of_holds table holds
  have last_page := divided.last_page
  have positive := @requestPages_pos sectorsPerPage lba size
  have ends : EndsAtBoundary maps sectorsPerPage lba boundary ↔
      requestPages sectorsPerPage lba size ≤ leafLeft root iNum lNum (lba / sectorsPerPage) := by
    rw [EndsAtBoundary, table]
    dsimp only
    rw [or_iff_right fun none => none.1 mapped]
    constructor
    · rintro ⟨root', iNum', lNum', some_root, holds', behind⟩
      obtain rfl := Option.some.inj some_root
      obtain ⟨rfl, rfl⟩ := (wellMapped.roots _ root table).holds_unique holds holds'
      have behind_lt := behind.lt
      rw [leafLeft]
      omega
    · intro all
      rw [leafLeft] at all
      exact ⟨root, iNum, lNum, rfl, holds, holds.iNum_lt, holds.index_used, holds.lNum_lt,
        holds.used, by omega, by omega⟩
  rw [readPart_held wellMapped table holds] at result
  have walk := walkLeaves_ends (wellMapped.roots _ root table) holds.iNum_lt holds.index_used
    holds.lNum_lt holds.used (firstPpn_le wellMapped table holds) (by rw [leafLeft]; omega)
    ((divided.request.counts leftSkip).read reader.reads
      (firstPpn root iNum lNum (lba / sectorsPerPage))) positive result
  by_cases all : requestPages sectorsPerPage lba size ≤ leafLeft root iNum lNum (lba / sectorsPerPage)
  · rw [if_pos all] at walk
    obtain ⟨rest_eq, aligned, ppn, none_left, before⟩ := walk
    have lba_eq : final.lba = boundary * sectorsPerPage := by
      have at_stop := (before (lba + size) ((divided.request.before start).read _ _)).lba
      rw [none_left, Nat.sub_zero, divided.stop, word, Nat.mod_eq_of_lt divided.stop_lt] at at_stop
      exact at_stop
    refine ⟨iff_of_true ⟨rest_eq, aligned, startPage_of_lba divided.request.page_pos lba_eq⟩
      (ends.mpr all), rest_eq.le, fun _ entries second => ?_⟩
    rw [Nat.mul_div_cancel _ divided.request.page_pos] at second ⊢
    have table' : maps ((boundary - 1) / numPagePerRoot) = .extents (some root) := by
      rw [divided.last_root, table]
    have previous : MapsTo maps (boundary - 1)
        (firstPpn root iNum lNum (lba / sectorsPerPage) +
          (requestPages sectorsPerPage lba size - 1)) := by
      rw [mapsTo_extents table']
      rw [leafLeft] at all
      refine ⟨iNum, lNum, ⟨holds.iNum_lt, holds.index_used, holds.lNum_lt, holds.used, by omega,
        by omega⟩, ?_⟩
      rw [firstPpn, last_page]
      omega
    refine ⟨lba_eq, fun place _ => ?_⟩
    rw [ppn]
    dsimp only
    constructor
    · rintro rfl
      exact ⟨some root, _, table', previous, by omega⟩
    · rintro ⟨-, previous', -, maps_to, rfl⟩
      have same := mapsTo_functional wellMapped maps_to previous
      omega
  · rw [if_neg all] at walk
    refine ⟨iff_of_false ?_ fun ends' => all (ends.mp ends'), Nat.le_of_lt walk,
      fun ends' => absurd (ends.mp ends') all⟩
    rintro ⟨rest_eq, -⟩
    exact walk.ne rest_eq

theorem handsOver (wellMapped : WellMapped maps) (start : reader.lba = lba)
    (leftSkip : reader.leftSkip = lba % sectorsPerPage) (fresh : reader.ppn = 0)
    {final : Reader} {rest : Nat}
    (result : readPart sectorsPerPage maps (lba / sectorsPerPage) size reader = some (final, rest)) :
    HandsOver maps sectorsPerPage lba size boundary final rest := by
  cases table : maps (lba / sectorsPerPage / numPagePerRoot) with
  | pages entries => exact divided.handsOver_pages wellMapped table start leftSkip fresh result
  | extents table' =>
      by_cases held : ∃ root iNum lNum, table' = some root ∧
          root.Holds iNum lNum (lba / sectorsPerPage % numPagePerRoot)
      · obtain ⟨root, iNum, lNum, rfl, holds⟩ := held
        exact divided.handsOver_held wellMapped table holds start leftSkip result
      · exact divided.handsOver_missing wellMapped table
          (fun root some_root iNum lNum holds => held ⟨root, iNum, lNum, some_root, holds⟩) start
          leftSkip result

end Divided

/-- A request that enters the next root. -/
theorem WellFormed.divided (request : WellFormed sectorsPerPage lba sectors)
    (crosses : isSameRegion sectorsPerPage lba sectors = false) :
    ∃ size boundary, Divided sectorsPerPage lba size boundary ∧ size < sectors ∧
      getDividedRegion sectorsPerPage lba = boundary * sectorsPerPage ∧
      WellFormed sectorsPerPage (boundary * sectorsPerPage) (sectors - size) ∧
      lastPage sectorsPerPage (boundary * sectorsPerPage) (sectors - size) =
        lastPage sectorsPerPage lba sectors := by
  have numbers := request.numbers
  have first_le := request.first_le_last
  have entries : numPagePerRoot = 2048 := rfl
  rw [isSameRegion, decide_eq_false_iff_not] at crosses
  obtain ⟨boundary, boundary_eq⟩ :
      ∃ boundary, boundary = (lba / sectorsPerPage / numPagePerRoot + 1) * numPagePerRoot :=
    ⟨_, rfl⟩
  obtain ⟨size, stop, size_lt, front, back, front_end, back_end⟩ :=
    request.cut (show lba / sectorsPerPage < boundary by rw [boundary_eq, entries]; omega)
      (by rw [boundary_eq]; rw [entries] at crosses ⊢; omega)
  have stop_lt : boundary * sectorsPerPage < 2 ^ 32 := by omega
  refine ⟨size, boundary, ⟨front, boundary_eq, front_end, stop, stop_lt⟩, size_lt, ?_, back, back_end⟩
  rw [getDividedRegion, ← boundary_eq, word, Nat.mod_eq_of_lt stop_lt]

/-- `FTL_READ` returns at once for the first sector alone. -/
theorem ftlRead_first_sector :
    (∃ trace, ftlRead sectorsPerPage maps 0 1 = some trace ∧
        ReadsMapped sectorsPerPage maps 0 1 trace) ↔ ¬ Mapped maps 0 := by
  have last : lastPage sectorsPerPage 0 1 = 0 := Nat.zero_div sectorsPerPage
  have first : 0 / sectorsPerPage = 0 := Nat.zero_div sectorsPerPage
  rw [ftlRead, if_pos ⟨rfl, rfl⟩]
  constructor
  · rintro ⟨trace, result, reads⟩ ⟨ppn, maps_to⟩
    cases result
    exact absurd (reads.covers 0 ppn first.le (Nat.zero_le _) maps_to) List.not_mem_nil
  · intro unmapped
    refine ⟨_, rfl, List.Pairwise.nil, fun read member => absurd member List.not_mem_nil,
      fun lpn ppn _ le maps_to => ?_, fun crosses => ?_⟩
    · rw [last, Nat.le_zero] at le
      subst le
      exact absurd ⟨ppn, maps_to⟩ unmapped
    · rw [isSameRegion, first, last, decide_eq_false_iff_not] at crosses
      contradiction

/-- A request in one root. -/
theorem ftlRead_one_root (wellMapped : WellMapped maps)
    (request : WellFormed sectorsPerPage lba sectors) (more : ¬ (lba = 0 ∧ sectors = 1))
    (region : isSameRegion sectorsPerPage lba sectors = true) :
    (∃ trace, ftlRead sectorsPerPage maps lba sectors = some trace ∧
        ReadsMapped sectorsPerPage maps lba sectors trace) ↔
      PartReadable maps (fun _ => False) (lba / sectorsPerPage)
        (requestPages sectorsPerPage lba sectors) := by
  have same : lba / sectorsPerPage / numPagePerRoot =
      lastPage sectorsPerPage lba sectors / numPagePerRoot := by
    rwa [isSameRegion, decide_eq_true_eq] at region
  have pages := requestPages_add request
  have spec := @readPart_spec maps sectorsPerPage lba sectors
    ⟨lba, 0, lba % sectorsPerPage, 0, []⟩ wellMapped request same rfl (fun _ => False)
    fun _ _ => ⟨rfl, fun ppn maps_to =>
      iff_of_false (wellMapped.positive _ ppn maps_to).ne' not_false⟩
  rw [ftlRead, if_neg more]
  dsimp only
  rw [if_pos region]
  cases result : readPart sectorsPerPage maps (lba / sectorsPerPage) sectors
      ⟨lba, 0, lba % sectorsPerPage, 0, []⟩ with
  | none =>
      rw [result] at spec
      refine iff_of_false ?_ spec
      rintro ⟨trace, absurd', -⟩
      cases absurd'
  | some found =>
      obtain ⟨final, rest⟩ := found
      rw [result] at spec
      obtain ⟨reads, reads_eq, ordered, within, covers⟩ := spec
      rw [List.nil_append] at reads_eq
      rw [← covers, Option.map_some]
      constructor
      · rintro ⟨trace, trace_eq, mapped⟩ lpn ppn le lt maps_to
        cases trace_eq
        have member := mapped.covers lpn ppn le (by omega) maps_to
        dsimp only at member
        rwa [reads_eq] at member
      · intro covers
        refine ⟨_, rfl, ?_, ?_, ?_, fun crosses => by rw [region] at crosses; contradiction⟩
        · dsimp only
          rwa [reads_eq]
        · dsimp only
          rw [reads_eq]
          intro read member
          have inside := within read member
          omega
        · dsimp only
          rw [reads_eq]
          exact fun lpn ppn le last maps_to => covers lpn ppn le (by omega) maps_to

/-- The second part of a request on two roots is in one root. -/
theorem second_same {size boundary : Nat} (divided : Divided sectorsPerPage lba size boundary)
    (request : WellFormed sectorsPerPage lba sectors)
    (crosses : isSameRegion sectorsPerPage lba sectors = false)
    (twoRoots : lastPage sectorsPerPage lba sectors / numPagePerRoot ≤
      lba / sectorsPerPage / numPagePerRoot + 1)
    (back_end : lastPage sectorsPerPage (boundary * sectorsPerPage) (sectors - size) =
      lastPage sectorsPerPage lba sectors) :
    boundary * sectorsPerPage / sectorsPerPage / numPagePerRoot =
      lastPage sectorsPerPage (boundary * sectorsPerPage) (sectors - size) / numPagePerRoot := by
  have first_le := request.first_le_last
  have boundary_eq := divided.boundary_eq
  have entries : numPagePerRoot = 2048 := rfl
  rw [isSameRegion, decide_eq_false_iff_not] at crosses
  rw [back_end, Nat.mul_div_cancel _ request.page_pos]
  rw [entries] at crosses twoRoots boundary_eq ⊢
  omega

/-- A request that enters the next root. -/
theorem ftlRead_two_roots (wellMapped : WellMapped maps)
    (request : WellFormed sectorsPerPage lba sectors) (more : ¬ (lba = 0 ∧ sectors = 1))
    (crosses : isSameRegion sectorsPerPage lba sectors = false)
    (twoRoots : lastPage sectorsPerPage lba sectors / numPagePerRoot ≤
      lba / sectorsPerPage / numPagePerRoot + 1) {boundary : Nat}
    (boundary_eq : boundary = (lba / sectorsPerPage / numPagePerRoot + 1) * numPagePerRoot) :
    (∃ trace, ftlRead sectorsPerPage maps lba sectors = some trace ∧
        ReadsMapped sectorsPerPage maps lba sectors trace) ↔
      PartReadable maps (fun _ => False) (lba / sectorsPerPage) (boundary - lba / sectorsPerPage) ∧
        EndsAtBoundary maps sectorsPerPage lba boundary ∧
        PartReadable maps (Continues maps boundary) boundary
          (lastPage sectorsPerPage lba sectors - boundary + 1) := by
  obtain ⟨size, boundary', divided, size_lt, region, back, back_end⟩ := request.divided crosses
  obtain rfl : boundary = boundary' := boundary_eq.trans divided.boundary_eq.symm
  have page_pos := request.page_pos
  have sectors_lt := request.sectors_lt
  have first_lt : lba / sectorsPerPage < boundary := by
    have last := divided.last
    have le := divided.request.first_le_last
    omega
  have boundary_le : boundary ≤ lastPage sectorsPerPage lba sectors := by
    have le := back.first_le_last
    rwa [back_end, Nat.mul_div_cancel _ page_pos] at le
  have first_pages : requestPages sectorsPerPage lba size = boundary - lba / sectorsPerPage := by
    have sum := requestPages_add divided.request
    have last := divided.last
    omega
  have second_first : boundary * sectorsPerPage / sectorsPerPage = boundary :=
    Nat.mul_div_cancel _ page_pos
  have second_pages : requestPages sectorsPerPage (boundary * sectorsPerPage) (sectors - size) =
      lastPage sectorsPerPage lba sectors - boundary + 1 := by
    rw [requestPages, back_end, second_first]
  have size_eq : subWord (getDividedRegion sectorsPerPage lba) lba = size := by
    have stop := divided.stop
    rw [region, subWord]
    omega
  have rest_eq : sectors - (getDividedRegion sectorsPerPage lba - lba) = sectors - size := by
    have stop := divided.stop
    rw [region]
    omega
  have first_spec := @readPart_spec maps sectorsPerPage lba size
    ⟨lba, 0, lba % sectorsPerPage, 0, []⟩ wellMapped divided.request divided.same rfl
    (fun _ => False) fun _ _ => ⟨rfl, fun ppn maps_to =>
      iff_of_false (wellMapped.positive _ ppn maps_to).ne' not_false⟩
  rw [first_pages] at first_spec
  rw [ftlRead, if_neg more]
  dsimp only
  rw [if_neg (by simp [crosses]), size_eq, region, second_first]
  cases first : readPart sectorsPerPage maps (lba / sectorsPerPage) size
      ⟨lba, 0, lba % sectorsPerPage, 0, []⟩ with
  | none =>
      rw [first] at first_spec
      refine iff_of_false ?_ fun all => first_spec all.1
      rintro ⟨trace, absurd', -⟩
      cases absurd'
  | some found =>
      obtain ⟨middle, rest⟩ := found
      rw [first] at first_spec
      obtain ⟨first_reads, first_eq, first_ordered, first_within, first_covers⟩ := first_spec
      rw [List.nil_append] at first_eq
      have handed : HandsOver maps sectorsPerPage lba size boundary middle rest :=
        divided.handsOver wellMapped (by rfl) (by rfl) (by rfl) first
      rw [Option.bind_some]
      dsimp only
      by_cases ends : EndsAtBoundary maps sectorsPerPage lba boundary
      · obtain ⟨rfl, aligned, start⟩ := handed.iff.mpr ends
        have left : subWord sectors rest = sectors - rest := by
          rw [subWord]
          omega
        have spec := readPart_spec wellMapped back (second_same divided request crosses twoRoots back_end)
          (by rw [aligned, Nat.mul_mod_left]) (handed.atPart ends)
        rw [second_first, second_pages] at spec
        rw [left, start, aligned, and_iff_right ends]
        cases second : readPart sectorsPerPage maps boundary (sectors - rest) middle with
        | none =>
            rw [second] at spec
            refine iff_of_false ?_ fun all => spec all.2
            rintro ⟨trace, absurd', -⟩
            cases absurd'
        | some found' =>
            obtain ⟨final, rest'⟩ := found'
            rw [second] at spec
            obtain ⟨second_reads, reads_eq, ordered, within, covers⟩ := spec
            rw [first_eq] at reads_eq
            have first_end : lba / sectorsPerPage + (boundary - lba / sectorsPerPage) = boundary := by
              omega
            have second_end : boundary + (lastPage sectorsPerPage lba sectors - boundary + 1) =
                lastPage sectorsPerPage lba sectors + 1 := by
              omega
            rw [first_end] at first_within first_covers
            rw [second_end] at within covers
            rw [← first_covers, ← covers, Option.map_some]
            constructor
            · rintro ⟨trace, trace_eq, mapped⟩
              cases trace_eq
              have members := mapped.covers
              dsimp only at members
              rw [reads_eq] at members
              constructor
              · intro lpn ppn le lt maps_to
                have member := members lpn ppn le (by omega) maps_to
                refine (List.mem_append.mp member).resolve_right fun later => ?_
                have inside := (within _ later).1
                dsimp only at inside
                omega
              · intro lpn ppn le lt maps_to
                have member := members lpn ppn (by omega) (by omega) maps_to
                refine (List.mem_append.mp member).resolve_left fun earlier => ?_
                have inside := (first_within _ earlier).2
                dsimp only at inside
                omega
            · rintro ⟨first_all, second_all⟩
              refine ⟨_, rfl, ?_, ?_, ?_, ?_⟩
              · dsimp only
                rw [reads_eq, List.pairwise_append]
                refine ⟨first_ordered, ordered, fun read member other member' => ?_⟩
                have before := first_within read member
                have behind := within other member'
                omega
              · dsimp only
                rw [reads_eq]
                intro read member
                rcases List.mem_append.mp member with member | member
                · have inside := first_within read member
                  omega
                · have inside := within read member
                  omega
              · dsimp only
                rw [reads_eq]
                intro lpn ppn le last maps_to
                rcases Nat.lt_or_ge lpn boundary with before | behind
                · exact List.mem_append_left _ (first_all lpn ppn le before maps_to)
                · exact List.mem_append_right _ (second_all lpn ppn behind (by omega) maps_to)
              · intro _
                rw [rest_eq, region, second_first]
      · refine iff_of_false ?_ fun all => ends all.2.1
        rintro ⟨trace, trace_eq, mapped⟩
        obtain ⟨⟨final, rest'⟩, -, rfl⟩ := Option.map_eq_some_iff.mp trace_eq
        have second := mapped.second crosses
        rw [rest_eq, region, second_first, Option.some.injEq, Prod.mk.injEq, Prod.mk.injEq] at second
        obtain ⟨start, aligned, left⟩ := second
        have le := handed.rest_le
        rw [subWord] at left
        exact ends (handed.iff.mp ⟨by omega, aligned, start⟩)

/-- A read reads every mapped page of a request at its place exactly if the request is readable. -/
theorem ftlRead_mapped_iff (wellMapped : WellMapped maps)
    (request : WellFormed sectorsPerPage lba sectors)
    (twoRoots : lastPage sectorsPerPage lba sectors / numPagePerRoot ≤
      lba / sectorsPerPage / numPagePerRoot + 1) :
    (∃ trace, ftlRead sectorsPerPage maps lba sectors = some trace ∧
        ReadsMapped sectorsPerPage maps lba sectors trace) ↔
      ReadableRequest maps sectorsPerPage lba sectors := by
  rw [ReadableRequest]
  by_cases single : lba = 0 ∧ sectors = 1
  · rw [if_pos single]
    obtain ⟨rfl, rfl⟩ := single
    exact ftlRead_first_sector
  · rw [if_neg single]
    cases region : isSameRegion sectorsPerPage lba sectors with
    | true =>
        rw [if_pos rfl]
        exact ftlRead_one_root wellMapped request single region
    | false =>
        rw [if_neg (by simp)]
        exact ftlRead_two_roots wellMapped request single region twoRoots rfl

end Requests

/-- A root with one extent: the first two pages, at the physical pages 10 and 11. -/
def oneLeaf : Root := pmInitExtmap.setLeaf 0 0 ⟨10, 0, 2, true⟩

def oneLeafMaps (rNum : Nat) : RootMap := .extents (if rNum = 0 then some oneLeaf else none)

theorem oneLeaf_used {iNum : Nat} (used : (oneLeaf.iNode iNum).used = true) : iNum = 0 :=
  of_decide_eq_true used

theorem oneLeaf_leaf_used {lNum : Nat} (used : (oneLeaf.leaf 0 lNum).used = true) : lNum = 0 := by
  by_contra other
  have cleared : oneLeaf.leaf 0 lNum = LeafNode.cleared := by
    change Function.update (fun _ => LeafNode.cleared) 0 _ lNum = _
    exact Function.update_of_ne other ..
  rw [cleared] at used
  cases used

theorem oneLeaf_wellFormed : oneLeaf.WellFormed where
  first_used := rfl
  first_lpn := rfl
  pointer iNum _ _ := ⟨iNum, rfl⟩
  index_next iNum _ used := absurd (oneLeaf_used used) (Nat.succ_ne_zero iNum)
  index_end iNum _ used _ := by
    obtain rfl := oneLeaf_used used
    rfl
  leaf_next iNum _ index_used lNum _ used := by
    obtain rfl := oneLeaf_used index_used
    exact absurd (oneLeaf_leaf_used used) (Nat.succ_ne_zero lNum)
  leaf_used iNum _ index_used lNum _ used := by
    obtain rfl := oneLeaf_used index_used
    obtain rfl := oneLeaf_leaf_used used
    decide
  leaf_unused iNum _ index_used lNum _ unused := by
    obtain rfl := oneLeaf_used index_used
    rcases Nat.eq_zero_or_pos lNum with rfl | later
    · cases unused
    · change (Function.update (fun _ => LeafNode.cleared) 0 _ lNum).size = 0
      rw [Function.update_of_ne later.ne']
      rfl

theorem mapsTo_oneLeaf {lpn ppn : Nat} (maps_to : MapsTo oneLeafMaps lpn ppn) :
    lpn < 2 ∧ ppn = 10 + lpn := by
  by_cases root : lpn / numPagePerRoot = 0
  · have table : oneLeafMaps (lpn / numPagePerRoot) = .extents (some oneLeaf) := by
      rw [oneLeafMaps, if_pos root]
    obtain ⟨iNum, lNum, holds, rfl⟩ := (mapsTo_extents table).mp maps_to
    obtain rfl := oneLeaf_used holds.index_used
    obtain rfl := oneLeaf_leaf_used holds.used
    have lt : lpn % numPagePerRoot < 2 := holds.lt
    have page : lpn % numPagePerRoot = lpn :=
      Nat.mod_eq_of_lt ((Nat.div_eq_zero_iff.mp root).resolve_left (by decide))
    rw [page] at lt ⊢
    exact ⟨lt, rfl⟩
  · rw [MapsTo, oneLeafMaps, if_neg root] at maps_to
    exact maps_to.elim

theorem oneLeaf_wellMapped : WellMapped oneLeafMaps where
  roots rNum root table := by
    rw [oneLeafMaps] at table
    split at table
    · cases table
      exact oneLeaf_wellFormed
    · cases table
  positive lpn ppn maps_to := by
    obtain ⟨-, rfl⟩ := mapsTo_oneLeaf maps_to
    omega
  injective lpn other ppn maps_to maps_to' := by
    have here := mapsTo_oneLeaf maps_to
    have there := mapsTo_oneLeaf maps_to'
    omega

/-- Both pages of the extent are read. -/
theorem ftlRead_mapped_oneLeaf : ∃ trace, ftlRead 16 oneLeafMaps 0 32 = some trace ∧
    ReadsMapped 16 oneLeafMaps 0 32 trace := by
  refine (ftlRead_mapped_iff oneLeaf_wellMapped ⟨by decide, by decide, by decide, by decide⟩
    (by decide)).mpr ?_
  have holds : ∀ page < 2, oneLeaf.Holds 0 0 page := fun page lt =>
    ⟨by decide, rfl, by decide, rfl, Nat.zero_le _, lt⟩
  rw [ReadableRequest, if_neg (by decide), if_pos (by decide)]
  refine Or.inr ⟨0, 0, holds 0 (by decide), by decide, fun page _ lt _ between _ le => ⟨0, ?_⟩⟩
  have lt' : page < 2 := lt
  exact holds _ ((Nat.mod_le _ _).trans_lt (by omega))

/-- A page map with one page. -/
def onePageMaps (rNum : Nat) : RootMap :=
  if rNum = 0 then .pages (some fun page => if page = 0 then 5 else unmapped) else .extents none

/-- The only mapped page is read at physical page 0, because `SSD_PAGE_READ` comes before the
assignment of `ppn`. -/
theorem not_ftlRead_mapped_pageMap : WellMapped onePageMaps ∧ WellFormed 16 0 16 ∧
    ¬ ∃ trace, ftlRead 16 onePageMaps 0 16 = some trace ∧
      ReadsMapped 16 onePageMaps 0 16 trace := by
  have only : ∀ {lpn ppn}, MapsTo onePageMaps lpn ppn → lpn = 0 ∧ ppn = 5 := by
    intro lpn ppn maps_to
    by_cases root : lpn / numPagePerRoot = 0
    · rw [MapsTo, onePageMaps, if_pos root] at maps_to
      obtain ⟨entry, mapped⟩ := maps_to
      have page : lpn % numPagePerRoot = lpn :=
        Nat.mod_eq_of_lt ((Nat.div_eq_zero_iff.mp root).resolve_left (by decide))
      rw [page] at entry
      dsimp only at entry
      split at entry
      · next first => exact ⟨first, entry.symm⟩
      · exact absurd entry.symm mapped
    · rw [MapsTo, onePageMaps, if_neg root] at maps_to
      exact maps_to.elim
  refine ⟨⟨fun rNum root table => ?_, fun lpn ppn maps_to => ?_, fun lpn other ppn here there => ?_⟩,
    ⟨by decide, by decide, by decide, by decide⟩, ?_⟩
  · rw [onePageMaps] at table
    split at table <;> cases table
  · rw [(only maps_to).2]
    decide
  · exact (only here).1.trans (only there).1.symm
  · rintro ⟨trace, result, reads⟩
    have computed : ftlRead 16 onePageMaps 0 16 = some ⟨[(0, 0)], none⟩ := by decide
    rw [computed] at result
    cases result
    have member := reads.covers 0 5 (by decide) (by decide) ⟨rfl, by decide⟩
    exact absurd member (by decide)

end Ftl
end StorageStack
