import StorageStack.Ftl.WriteRequests

/-!
# Reads of the translation layer

`FTL_READ` cuts a request where it enters the next root.  In a root with a page map it looks every
page up; in a root with extents it looks the first page up and then goes through the leaves behind
the one that it found.  A look at a leaf slot outside the used nodes has no result.
-/

namespace StorageStack
namespace Ftl

/-- The table of a root; a table that was never written is missing. -/
inductive RootMap
  | pages (entries : Option PageMap)
  | extents (table : Option Root)

/-- What a pointer into a table leads to. -/
inductive Address
  | entry (ppn : Nat)
  | leaf (iNum lNum : Nat) (node : LeafNode)
deriving DecidableEq, Repr

/-- The first word of an entry or a leaf. -/
def Address.ppn : Address → Nat
  | entry ppn => ppn
  | leaf _ _ node => node.ppn

/-- The inner option is missing when there is no place for the page. -/
def pmGetPhysicalAddress (maps : Nat → RootMap) (lpn : Nat) : Option (Option Address) :=
  match maps (lpn / numPagePerRoot) with
  | .pages entries => some (entries.map fun entries => .entry (entries (lpn % numPagePerRoot)))
  | .extents none => some none
  | .extents (some root) =>
      (pmReadExtmap root (lpn % numPagePerRoot)).map fun found =>
        found.map fun (iNum, lNum, node) => .leaf iNum lNum node

def pmGetLnode (root : Root) (iNum lNum : Nat) : Option (Nat × Nat × LeafNode) :=
  let (iNum, lNum) := if lNum = indexNodeSize then (iNum + 1, 0) else (iNum, lNum + 1)
  if iNum < indexNodeSize ∧ lNum < leafNodeSize ∧ (root.iNode iNum).used then
    (root.iNode iNum).lNode.map fun array => (iNum, lNum, root.lNode array lNum)
  else none

/-! ## The loops -/

/-- The variables of the loops, and the calls of `SSD_PAGE_READ` with the logical page for which
each was made. -/
structure Reader where
  lba : Nat
  remain : Nat
  leftSkip : Nat
  ppn : Nat
  reads : List (Nat × Nat)
deriving DecidableEq, Repr

/-- The sectors of one round. -/
def pageSects (sectorsPerPage leftSkip remain : Nat) : Nat :=
  let rightSkip := if sectorsPerPage - leftSkip < remain then 0 else sectorsPerPage - leftSkip - remain
  sectorsPerPage - leftSkip - rightSkip

namespace Reader

variable (sectorsPerPage : Nat) (reader : Reader)

/-- The sectors of one round are done. -/
def skip : Reader :=
  let sects := pageSects sectorsPerPage reader.leftSkip reader.remain
  { reader with lba := word (reader.lba + sects), remain := reader.remain - sects }

def advance : Reader := { reader.skip sectorsPerPage with leftSkip := 0 }

def ssdPageRead (lpn : Nat) : Reader := { reader with reads := reader.reads ++ [(lpn, reader.ppn)] }

end Reader

/-- The loop over the pages of a root with a page map; `SSD_PAGE_READ` is called before `ppn` gets
the value of the entry. -/
def readEntries (sectorsPerPage : Nat) (maps : Nat → RootMap) : Nat → Reader → Option Reader
  | 0, reader => some reader
  | rounds + 1, reader =>
      if reader.remain = 0 then
        some reader
      else
        let lpn := reader.lba / sectorsPerPage
        (pmGetPhysicalAddress maps lpn).bind fun res =>
          readEntries sectorsPerPage maps rounds
            ({ reader.ssdPageRead lpn with ppn := (res.map Address.ppn).getD reader.ppn }.advance
              sectorsPerPage)

/-- The loop over the pages of one leaf; `lpn` is the page of the first round. -/
def readLeaf (sectorsPerPage : Nat) (node : LeafNode) : (leafSize lpn : Nat) → Reader → Reader
  | 0, _, reader => reader
  | leafSize + 1, lpn, reader =>
      if reader.remain = 0 then
        reader
      else
        let ppn :=
          if node.used = false ∨ node.ppn = unmapped then reader.ppn else word (reader.ppn + 1)
        readLeaf sectorsPerPage node leafSize (lpn + 1)
          ({ reader.ssdPageRead lpn with ppn := ppn }.advance sectorsPerPage)

/-- The loop over the leaves of a root, with `t_sectors` after it. -/
def walkLeaves (sectorsPerPage : Nat) (root : Root) :
    (rounds iNum lNum : Nat) → LeafNode → (leafSize lpn tSectors : Nat) → Reader →
      Option (Reader × Nat)
  | 0, _, _, _, _, _, _, _ => none
  | rounds + 1, iNum, lNum, node, leafSize, lpn, tSectors, reader =>
      let reader := readLeaf sectorsPerPage node leafSize lpn reader
      if reader.remain = 0 then
        some (reader, tSectors)
      else
        (pmGetLnode root iNum lNum).bind fun (iNum, lNum, node) =>
          if node.used = false ∨ node.ppn = unmapped then
            let reader := reader.skip sectorsPerPage
            walkLeaves sectorsPerPage root rounds iNum lNum node 0 (lpn + leafSize + 1)
              reader.remain reader
          else
            walkLeaves sectorsPerPage root rounds iNum lNum node node.size (lpn + leafSize)
              reader.remain { reader with ppn := node.ppn }

/-- A part of a request in one root. -/
def readPart (sectorsPerPage : Nat) (maps : Nat → RootMap) (lpn tSectors : Nat) (reader : Reader) :
    Option (Reader × Nat) :=
  let reader := { reader with remain := tSectors }
  match maps (lpn / numPagePerRoot) with
  | .pages _ => (readEntries sectorsPerPage maps tSectors reader).map fun reader => (reader, tSectors)
  | .extents table =>
      (pmGetPhysicalAddress maps lpn).bind fun res =>
        match table, res with
        | some root, some (.leaf iNum lNum node) =>
            let addSize := subWord (lpn % numPagePerRoot) node.lpn
            walkLeaves sectorsPerPage root (leafNodeSize + 1) iNum lNum node
              (subWord node.size addSize) lpn tSectors
              { reader with ppn := word (node.ppn + addSize) }
        | _, _ => some (reader, tSectors)

/-- The page at which the loops of a part start. -/
def startPage (sectorsPerPage : Nat) (maps : Nat → RootMap) (lpn : Nat) (reader : Reader) : Nat :=
  match maps (lpn / numPagePerRoot) with
  | .pages _ => reader.lba / sectorsPerPage
  | .extents _ => lpn

/-- The reads of a request, and the first page, the sectors to skip in it and the sectors of its
second part. -/
structure ReadTrace where
  reads : List (Nat × Nat)
  second : Option (Nat × Nat × Nat)
deriving DecidableEq, Repr

def ftlRead (sectorsPerPage : Nat) (maps : Nat → RootMap) (lba sectors : Nat) : Option ReadTrace :=
  if lba = 0 ∧ sectors = 1 then
    some ⟨[], none⟩
  else
    let lpn := lba / sectorsPerPage
    let reader : Reader := ⟨lba, 0, lba % sectorsPerPage, 0, []⟩
    if isSameRegion sectorsPerPage lba sectors then
      (readPart sectorsPerPage maps lpn sectors reader).map fun (reader, _) => ⟨reader.reads, none⟩
    else
      let dividedLba := getDividedRegion sectorsPerPage lba
      let dividedLpn := dividedLba / sectorsPerPage
      (readPart sectorsPerPage maps lpn (subWord dividedLba lba) reader).bind
        fun (reader, tSectors) =>
          let rest := subWord sectors tSectors
          (readPart sectorsPerPage maps dividedLpn rest reader).map fun (final, _) =>
            ⟨final.reads,
              some (startPage sectorsPerPage maps dividedLpn reader, reader.leftSkip, rest)⟩

/-! ## Well-formed maps -/

namespace Root

variable (root : Root)

/-- A leaf of an index node. -/
def leaf (iNum lNum : Nat) : LeafNode :=
  match (root.iNode iNum).lNode with
  | some array => root.lNode array lNum
  | none => LeafNode.zero

/-- The leaf that holds a page of the root. -/
structure Holds (iNum lNum page : Nat) : Prop where
  iNum_lt : iNum < indexNodeSize
  index_used : (root.iNode iNum).used = true
  lNum_lt : lNum < leafNodeSize
  used : (root.leaf iNum lNum).used = true
  le : (root.leaf iNum lNum).lpn ≤ page
  lt : page < (root.leaf iNum lNum).lpn + (root.leaf iNum lNum).size

/-- The ranges of the used index nodes follow each other through the root; the used leaves of an
index node come first, in order and inside its range, and the others are empty. -/
structure WellFormed : Prop where
  first_used : (root.iNode 0).used = true
  first_lpn : (root.iNode 0).lpn = 0
  pointer : ∀ iNum < indexNodeSize, (root.iNode iNum).used = true →
    ∃ array, (root.iNode iNum).lNode = some array
  index_next : ∀ iNum, iNum + 1 < indexNodeSize → (root.iNode (iNum + 1)).used = true →
    (root.iNode iNum).used = true ∧
      (root.iNode (iNum + 1)).lpn = (root.iNode iNum).lpn + (root.iNode iNum).size
  index_end : ∀ iNum < indexNodeSize, (root.iNode iNum).used = true →
    (iNum + 1 < indexNodeSize → (root.iNode (iNum + 1)).used = false) →
      (root.iNode iNum).lpn + (root.iNode iNum).size = numPagePerRoot
  leaf_next : ∀ iNum < indexNodeSize, (root.iNode iNum).used = true →
    ∀ lNum, lNum + 1 < leafNodeSize → (root.leaf iNum (lNum + 1)).used = true →
      (root.leaf iNum lNum).used = true ∧
        (root.leaf iNum lNum).lpn + (root.leaf iNum lNum).size ≤ (root.leaf iNum (lNum + 1)).lpn
  leaf_used : ∀ iNum < indexNodeSize, (root.iNode iNum).used = true →
    ∀ lNum < leafNodeSize, (root.leaf iNum lNum).used = true →
      0 < (root.leaf iNum lNum).size ∧ (root.iNode iNum).lpn ≤ (root.leaf iNum lNum).lpn ∧
        (root.leaf iNum lNum).lpn + (root.leaf iNum lNum).size ≤
          (root.iNode iNum).lpn + (root.iNode iNum).size ∧
        0 < (root.leaf iNum lNum).ppn ∧
        (root.leaf iNum lNum).ppn + (root.leaf iNum lNum).size ≤ unmapped
  leaf_unused : ∀ iNum < indexNodeSize, (root.iNode iNum).used = true →
    ∀ lNum < leafNodeSize, (root.leaf iNum lNum).used = false → (root.leaf iNum lNum).size = 0

variable {root}

namespace WellFormed

variable (formed : root.WellFormed)
include formed

theorem index_lt {iNum later : Nat} (lt : iNum < later) (later_lt : later < indexNodeSize)
    (used : (root.iNode later).used = true) :
    (root.iNode iNum).used = true ∧
      (root.iNode iNum).lpn + (root.iNode iNum).size ≤ (root.iNode later).lpn := by
  induction later, lt using Nat.le_induction with
  | base =>
      obtain ⟨used', next⟩ := formed.index_next iNum later_lt used
      exact ⟨used', next.ge⟩
  | succ later le ih =>
      obtain ⟨used', next⟩ := formed.index_next later later_lt used
      obtain ⟨first_used, before⟩ := ih (by omega) used'
      exact ⟨first_used, by omega⟩

theorem leaf_lt {iNum lNum later : Nat} (iNum_lt : iNum < indexNodeSize)
    (index_used : (root.iNode iNum).used = true) (lt : lNum < later) (later_lt : later < leafNodeSize)
    (used : (root.leaf iNum later).used = true) :
    (root.leaf iNum lNum).used = true ∧
      (root.leaf iNum lNum).lpn + (root.leaf iNum lNum).size ≤ (root.leaf iNum later).lpn := by
  induction later, lt using Nat.le_induction with
  | base => exact formed.leaf_next iNum iNum_lt index_used lNum later_lt used
  | succ later le ih =>
      obtain ⟨used', before⟩ := formed.leaf_next iNum iNum_lt index_used later later_lt used
      obtain ⟨first_used, first_before⟩ := ih (by omega) used'
      exact ⟨first_used, by omega⟩

/-- Every page of the root is in the range of an index node. -/
theorem exists_index {page : Nat} (page_lt : page < numPagePerRoot) :
    ∃ iNum < indexNodeSize, (root.iNode iNum).used = true ∧ (root.iNode iNum).lpn ≤ page ∧
      page < (root.iNode iNum).lpn + (root.iNode iNum).size := by
  by_contra! none
  have behind : ∀ iNum < indexNodeSize, (root.iNode iNum).used = true ∧
      (root.iNode iNum).lpn + (root.iNode iNum).size ≤ page := by
    intro iNum iNum_lt
    induction iNum with
    | zero =>
        exact ⟨formed.first_used, none 0 iNum_lt formed.first_used (by rw [formed.first_lpn]; omega)⟩
    | succ iNum ih =>
        obtain ⟨used, before⟩ := ih (by omega)
        have used' : (root.iNode (iNum + 1)).used = true := by
          by_contra unused
          have last := formed.index_end iNum (by omega) used fun _ => by simpa using unused
          omega
        obtain ⟨-, next⟩ := formed.index_next iNum iNum_lt used'
        exact ⟨used', none _ iNum_lt used' (by omega)⟩
  have six : indexNodeSize = 6 := rfl
  obtain ⟨used, before⟩ := behind 5 (by omega)
  have last := formed.index_end 5 (by omega) used (by omega)
  omega

/-- A page is in one leaf at most. -/
theorem holds_unique {iNum lNum iNum' lNum' page : Nat} (holds : root.Holds iNum lNum page)
    (holds' : root.Holds iNum' lNum' page) : iNum = iNum' ∧ lNum = lNum' := by
  have inside := formed.leaf_used iNum holds.iNum_lt holds.index_used lNum holds.lNum_lt holds.used
  have inside' :=
    formed.leaf_used iNum' holds'.iNum_lt holds'.index_used lNum' holds'.lNum_lt holds'.used
  have le := holds.le
  have lt := holds.lt
  have le' := holds'.le
  have lt' := holds'.lt
  obtain before | same | behind := Nat.lt_trichotomy iNum iNum'
  · have order := (formed.index_lt before holds'.iNum_lt holds'.index_used).2
    omega
  · subst same
    refine ⟨rfl, ?_⟩
    obtain before | same | behind := Nat.lt_trichotomy lNum lNum'
    · have order :=
        (formed.leaf_lt holds.iNum_lt holds.index_used before holds'.lNum_lt holds'.used).2
      omega
    · exact same
    · have order :=
        (formed.leaf_lt holds.iNum_lt holds.index_used behind holds.lNum_lt holds.used).2
      omega
  · have order := (formed.index_lt behind holds.iNum_lt holds.index_used).2
    omega

/-- The lookup finds the leaf that holds the page. -/
theorem pmReadExtmap_spec {page : Nat} (page_lt : page < numPagePerRoot) :
    (∃ iNum lNum, root.Holds iNum lNum page ∧
      pmReadExtmap root page = some (some (iNum, lNum, root.leaf iNum lNum))) ∨
    (∀ iNum lNum, ¬ root.Holds iNum lNum page) ∧ pmReadExtmap root page = some none := by
  obtain ⟨iNum, iNum_lt, used, le, lt⟩ := formed.exists_index page_lt
  obtain ⟨array, pointer⟩ := formed.pointer iNum iNum_lt used
  have leaf_eq : ∀ lNum, root.leaf iNum lNum = root.lNode array lNum := by
    intro lNum
    rw [Root.leaf, pointer]
  have index : (List.range indexNodeSize).find? (fun iNum =>
      decide ((root.iNode iNum).used = false ∨ ((root.iNode iNum).lpn ≤ page ∧
        page < (root.iNode iNum).lpn + (root.iNode iNum).size))) = some iNum := by
    rw [List.find?_range_eq_some]
    refine ⟨by simp [le, lt], List.mem_range.mpr iNum_lt, fun other before => ?_⟩
    obtain ⟨used', order⟩ := formed.index_lt before iNum_lt used
    rw [Bool.not_eq_true', decide_eq_false_iff_not]
    rintro (unused | ⟨-, inside⟩)
    · rw [used'] at unused
      contradiction
    · omega
  -- a page in the range of this index node is in none of the others
  have here : ∀ iNum' lNum', root.Holds iNum' lNum' page → iNum' = iNum := by
    intro iNum' lNum' holds
    have inside := formed.leaf_used iNum' holds.iNum_lt holds.index_used lNum' holds.lNum_lt holds.used
    have le' := holds.le
    have lt' := holds.lt
    obtain before | same | behind := Nat.lt_trichotomy iNum' iNum
    · have order := (formed.index_lt before iNum_lt used).2
      omega
    · exact same
    · have order := (formed.index_lt behind holds.iNum_lt holds.index_used).2
      omega
  rw [pmReadExtmap, index]
  simp only [used, Bool.true_eq_false, if_false, pointer, Option.bind_eq_bind, Option.bind_some,
    ← leaf_eq]
  by_cases first : (root.leaf iNum 0).used = false
  · right
    refine ⟨fun iNum' lNum' holds => ?_, if_pos first⟩
    obtain rfl := here iNum' lNum' holds
    have first' : (root.leaf iNum' 0).used = true := by
      cases lNum' with
      | zero => exact holds.used
      | succ lNum' =>
          exact (formed.leaf_lt iNum_lt used (Nat.succ_pos _) holds.lNum_lt holds.used).1
    rw [first] at first'
    contradiction
  · rw [if_neg first]
    cases found : (List.range leafNodeSize).find? fun lNum =>
        decide ((root.leaf iNum lNum).lpn ≤ page ∧
          page < (root.leaf iNum lNum).lpn + (root.leaf iNum lNum).size) with
    | none =>
        right
        refine ⟨fun iNum' lNum' holds => ?_, rfl⟩
        obtain rfl := here iNum' lNum' holds
        rw [List.find?_range_eq_none] at found
        have apart := found lNum' holds.lNum_lt
        rw [Bool.not_eq_true', decide_eq_false_iff_not] at apart
        exact apart ⟨holds.le, holds.lt⟩
    | some lNum =>
        left
        rw [List.find?_range_eq_some, decide_eq_true_eq, List.mem_range] at found
        obtain ⟨⟨le', lt'⟩, lNum_lt, -⟩ := found
        refine ⟨iNum, lNum, ⟨iNum_lt, used, lNum_lt, ?_, le', lt'⟩, rfl⟩
        by_contra unused
        have empty := formed.leaf_unused iNum iNum_lt used lNum lNum_lt (by simpa using unused)
        omega

end WellFormed

end Root

/-- The logical page `lpn` is mapped to the physical page `ppn`. -/
def MapsTo (maps : Nat → RootMap) (lpn ppn : Nat) : Prop :=
  match maps (lpn / numPagePerRoot) with
  | .pages none => False
  | .pages (some entries) => entries (lpn % numPagePerRoot) = ppn ∧ ppn ≠ unmapped
  | .extents none => False
  | .extents (some root) => ∃ iNum lNum, root.Holds iNum lNum (lpn % numPagePerRoot) ∧
      ppn = (root.leaf iNum lNum).ppn + (lpn % numPagePerRoot - (root.leaf iNum lNum).lpn)

def Mapped (maps : Nat → RootMap) (lpn : Nat) : Prop := ∃ ppn, MapsTo maps lpn ppn

/-- The tables are well-formed, no page is mapped to physical page 0, and no two pages are mapped to
one physical page. -/
structure WellMapped (maps : Nat → RootMap) : Prop where
  roots : ∀ rNum root, maps rNum = .extents (some root) → root.WellFormed
  positive : ∀ lpn ppn, MapsTo maps lpn ppn → 0 < ppn
  injective : ∀ lpn other ppn, MapsTo maps lpn ppn → MapsTo maps other ppn → lpn = other

/-- What the reads of a request should be: one for each mapped page at its physical page, in
increasing order; and the second part begins at the root boundary and has the sectors behind it. -/
structure ReadsMapped (sectorsPerPage : Nat) (maps : Nat → RootMap) (lba sectors : Nat)
    (trace : ReadTrace) : Prop where
  ordered : trace.reads.Pairwise fun read later => read.1 < later.1
  within : ∀ read ∈ trace.reads, lba / sectorsPerPage ≤ read.1 ∧
    read.1 ≤ lastPage sectorsPerPage lba sectors
  covers : ∀ lpn ppn, lba / sectorsPerPage ≤ lpn → lpn ≤ lastPage sectorsPerPage lba sectors →
    MapsTo maps lpn ppn → (lpn, ppn) ∈ trace.reads
  second : isSameRegion sectorsPerPage lba sectors = false →
    trace.second = some (getDividedRegion sectorsPerPage lba / sectorsPerPage, 0,
      sectors - (getDividedRegion sectorsPerPage lba - lba))

/-! ## The pages of a part -/

/-- Consecutive reads. -/
def leafReads (lpn ppn : Nat) : Nat → List (Nat × Nat)
  | 0 => []
  | count + 1 => (lpn, ppn) :: leafReads (lpn + 1) (ppn + 1) count

theorem mem_leafReads {lpn ppn count : Nat} {read : Nat × Nat} :
    read ∈ leafReads lpn ppn count ↔
      ∃ offset < count, read.1 = lpn + offset ∧ read.2 = ppn + offset := by
  induction count generalizing lpn ppn with
  | zero => simp [leafReads]
  | succ count ih =>
      rw [leafReads, List.mem_cons, ih]
      constructor
      · rintro (rfl | ⟨offset, offset_lt, page, place⟩)
        · exact ⟨0, by omega, rfl, rfl⟩
        · exact ⟨offset + 1, by omega, by omega, by omega⟩
      · rintro ⟨offset, offset_lt, page, place⟩
        cases offset with
        | zero => exact .inl (Prod.ext page place)
        | succ offset => exact .inr ⟨offset, by omega, by omega, by omega⟩

/-- The walk over the slots of an index node for `count` pages from `lpn` on, when the leaf in slot
`lNum` has `leafSize` pages left. -/
def walkPages (leaves : Nat → LeafNode) :
    (rounds lNum leafSize lpn ppn count : Nat) → Option (List (Nat × Nat))
  | 0, _, _, _, _, _ => none
  | rounds + 1, lNum, leafSize, lpn, ppn, count =>
      if count ≤ leafSize then
        some (leafReads lpn ppn count)
      else if lNum + 1 < leafNodeSize then
        (if (leaves (lNum + 1)).used = false then
            walkPages leaves rounds (lNum + 1) 0 (lpn + leafSize + 1) (ppn + leafSize)
              (count - leafSize - 1)
          else
            walkPages leaves rounds (lNum + 1) (leaves (lNum + 1)).size (lpn + leafSize)
              (leaves (lNum + 1)).ppn (count - leafSize)).map
          fun later => leafReads lpn ppn leafSize ++ later
      else none

/-- The pages for which a slot stands in the walk. -/
def slotPages (node : LeafNode) : Nat := if node.used then node.size else 1

/-- The pages for which the slots behind a slot stand. -/
def pagesBehind (leaves : Nat → LeafNode) (lNum : Nat) : Nat :=
  ((List.range' (lNum + 1) (leafNodeSize - (lNum + 1))).map fun slot => slotPages (leaves slot)).sum

theorem pagesBehind_succ {leaves : Nat → LeafNode} {lNum : Nat} (lt : lNum + 1 < leafNodeSize) :
    pagesBehind leaves lNum = slotPages (leaves (lNum + 1)) + pagesBehind leaves (lNum + 1) := by
  obtain ⟨more, count⟩ : ∃ more, leafNodeSize - (lNum + 1) = more + 1 :=
    Nat.exists_eq_add_of_lt (Nat.sub_pos_of_lt lt) |>.imp fun more eq => by omega
  have rest : leafNodeSize - (lNum + 1 + 1) = more := by omega
  rw [pagesBehind, pagesBehind, count, rest, List.range'_succ, List.map_cons, List.sum_cons]

theorem pagesBehind_last {leaves : Nat → LeafNode} {lNum : Nat} (ge : leafNodeSize ≤ lNum + 1) :
    pagesBehind leaves lNum = 0 := by
  rw [pagesBehind, Nat.sub_eq_zero_of_le ge]
  rfl

/-- The walk stays in the index node exactly if its slots stand for enough pages. -/
theorem walkPages_isSome_iff {leaves : Nat → LeafNode} {rounds lNum leafSize lpn ppn count : Nat}
    (lNum_lt : lNum < leafNodeSize) (enough : leafNodeSize ≤ rounds + lNum) :
    (walkPages leaves rounds lNum leafSize lpn ppn count).isSome ↔
      count ≤ leafSize + pagesBehind leaves lNum := by
  induction rounds generalizing lNum leafSize lpn ppn count with
  | zero => omega
  | succ rounds ih =>
      rw [walkPages]
      by_cases all : count ≤ leafSize
      · rw [if_pos all]
        exact iff_of_true rfl (by omega)
      · rw [if_neg all]
        by_cases more : lNum + 1 < leafNodeSize
        · rw [if_pos more, Option.isSome_map, pagesBehind_succ more, slotPages]
          cases used : (leaves (lNum + 1)).used with
          | false =>
              rw [if_pos rfl, ih more (by omega), if_neg (by simp)]
              omega
          | true =>
              rw [if_neg (by simp), ih more (by omega), if_pos rfl]
              omega
        · rw [if_neg more, pagesBehind_last (by omega)]
          exact iff_of_false (by simp) (by omega)

theorem mem_walkPages_cons {leaves : Nat → LeafNode}
    {rounds lNum leafSize lpn ppn count : Nat} {reads : List (Nat × Nat)}
    (walk : walkPages leaves (rounds + 1) lNum leafSize lpn ppn count = some reads)
    (more : leafSize < count) :
    lNum + 1 < leafNodeSize ∧ ∃ later, reads = leafReads lpn ppn leafSize ++ later ∧
      (if (leaves (lNum + 1)).used = false then
          walkPages leaves rounds (lNum + 1) 0 (lpn + leafSize + 1) (ppn + leafSize)
            (count - leafSize - 1)
        else
          walkPages leaves rounds (lNum + 1) (leaves (lNum + 1)).size (lpn + leafSize)
            (leaves (lNum + 1)).ppn (count - leafSize)) = some later := by
  rw [walkPages, if_neg (by omega)] at walk
  by_cases inside : lNum + 1 < leafNodeSize
  · rw [if_pos inside, Option.map_eq_some_iff] at walk
    obtain ⟨later, rest, rfl⟩ := walk
    exact ⟨inside, later, rfl, rest⟩
  · rw [if_neg inside] at walk
    contradiction

theorem leafReads_ordered (lpn ppn count : Nat) :
    (leafReads lpn ppn count).Pairwise fun read later => read.1 < later.1 := by
  induction count generalizing lpn ppn with
  | zero => exact List.Pairwise.nil
  | succ count ih =>
      refine List.Pairwise.cons (fun read member => ?_) (ih ..)
      obtain ⟨offset, -, page, -⟩ := mem_leafReads.mp member
      change lpn < read.1
      omega

/-- The reads are for increasing pages of the part. -/
theorem walkPages_ordered {leaves : Nat → LeafNode}
    {rounds lNum leafSize lpn ppn count : Nat} {reads : List (Nat × Nat)}
    (walk : walkPages leaves rounds lNum leafSize lpn ppn count = some reads) :
    reads.Pairwise (fun read later => read.1 < later.1) ∧
      ∀ read ∈ reads, lpn ≤ read.1 ∧ read.1 < lpn + count := by
  induction rounds generalizing lNum leafSize lpn ppn count reads with
  | zero => cases walk
  | succ rounds ih =>
      rcases Nat.lt_or_ge leafSize count with more | all
      · obtain ⟨-, later, rfl, rest⟩ := mem_walkPages_cons walk more
        have first : ∀ read ∈ leafReads lpn ppn leafSize, lpn ≤ read.1 ∧ read.1 < lpn + leafSize := by
          intro read member
          obtain ⟨offset, offset_lt, page, -⟩ := mem_leafReads.mp member
          omega
        have ordered : later.Pairwise (fun read later => read.1 < later.1) ∧
            ∀ read ∈ later, lpn + leafSize ≤ read.1 ∧ read.1 < lpn + count := by
          split at rest
          · obtain ⟨ordered, within⟩ := ih rest
            exact ⟨ordered, fun read member => by have inside := within read member; omega⟩
          · obtain ⟨ordered, within⟩ := ih rest
            exact ⟨ordered, fun read member => by have inside := within read member; omega⟩
        rw [List.pairwise_append]
        refine ⟨⟨leafReads_ordered .., ordered.1, fun read member other member' => ?_⟩,
          fun read member => ?_⟩
        · have before := first read member
          have behind := ordered.2 other member'
          omega
        · rcases List.mem_append.mp member with member | member
          · have before := first read member
            omega
          · have behind := ordered.2 read member
            omega
      · rw [walkPages, if_pos all, Option.some.injEq] at walk
        subst walk
        refine ⟨leafReads_ordered .., fun read member => ?_⟩
        obtain ⟨offset, offset_lt, page, -⟩ := mem_leafReads.mp member
        omega

/-- The leaves of an index node, with the logical pages at which they start. -/
structure Row (mapsTo : Nat → Nat → Prop) (leaves : Nat → LeafNode) (start : Nat → Nat) : Prop where
  holds : ∀ slot < leafNodeSize, (leaves slot).used = true → 0 < (leaves slot).size ∧
    ∀ offset < (leaves slot).size, mapsTo (start slot + offset) ((leaves slot).ppn + offset)
  next : ∀ slot, slot + 1 < leafNodeSize → (leaves (slot + 1)).used = true →
    (leaves slot).used = true ∧ start slot + (leaves slot).size ≤ start (slot + 1)
  functional : ∀ lpn ppn ppn', mapsTo lpn ppn → mapsTo lpn ppn' → ppn = ppn'
  injective : ∀ lpn lpn' ppn, mapsTo lpn ppn → mapsTo lpn' ppn → lpn = lpn'

namespace Row

variable {mapsTo : Nat → Nat → Prop} {leaves : Nat → LeafNode} {start : Nat → Nat}
  {rounds lNum leafSize lpn ppn count : Nat} {reads : List (Nat × Nat)}
  (row : Row mapsTo leaves start)
include row

/-- Behind an unused slot the walk reads nothing. -/
theorem reads_unused (unused : (leaves lNum).used = false)
    (walk : walkPages leaves rounds lNum 0 lpn ppn count = some reads) : reads = [] := by
  induction rounds generalizing lNum lpn ppn count reads with
  | zero => cases walk
  | succ rounds ih =>
      rcases Nat.eq_zero_or_pos count with rfl | more
      · exact (Option.some.inj walk).symm
      · obtain ⟨inside, later, rfl, rest⟩ := mem_walkPages_cons walk more
        have unused' : (leaves (lNum + 1)).used = false := by
          by_contra used
          have before := (row.next lNum inside (by simpa using used)).1
          rw [unused] at before
          contradiction
        rw [if_pos unused'] at rest
        exact ih unused' rest

/-- A walk that is ahead of the logical pages reads none of them at its place. -/
theorem not_mem_of_ahead {shift : Nat} (lNum_lt : lNum < leafNodeSize)
    (used : (leaves lNum).used = true) (size : leafSize ≤ (leaves lNum).size)
    (place : ppn = (leaves lNum).ppn + ((leaves lNum).size - leafSize))
    (ahead : start lNum + (leaves lNum).size = lpn + shift + leafSize) (positive : 0 < shift)
    (walk : walkPages leaves rounds lNum leafSize lpn ppn count = some reads) :
    ∀ page ppn, mapsTo page ppn → (page, ppn) ∉ reads := by
  induction rounds generalizing lNum leafSize lpn ppn count reads shift with
  | zero => cases walk
  | succ rounds ih =>
      have wrong : ∀ page place, mapsTo page place → (page, place) ∉ leafReads lpn ppn leafSize := by
        intro page place' maps member
        obtain ⟨offset, offset_lt, page_eq, place_eq⟩ := mem_leafReads.mp member
        have other := (row.holds lNum lNum_lt used).2 ((leaves lNum).size - leafSize + offset)
          (by omega)
        rw [← Nat.add_assoc (leaves lNum).ppn, ← place, ← place_eq] at other
        have same := row.injective _ _ _ maps other
        dsimp only at page_eq
        omega
      rcases Nat.lt_or_ge leafSize count with more | all
      · obtain ⟨inside, later, rfl, rest⟩ := mem_walkPages_cons walk more
        intro page place' maps member
        rcases List.mem_append.mp member with member | member
        · exact wrong page place' maps member
        · cases used' : (leaves (lNum + 1)).used with
          | false =>
              rw [if_pos used'] at rest
              rw [row.reads_unused used' rest] at member
              contradiction
          | true =>
              rw [if_neg (by simp [used'])] at rest
              have order := (row.next lNum inside used').2
              have ahead' : start (lNum + 1) + (leaves (lNum + 1)).size =
                  lpn + leafSize + (start (lNum + 1) - (lpn + leafSize)) + (leaves (lNum + 1)).size := by
                omega
              exact ih inside used' le_rfl (by omega) ahead' (by omega) rest page place' maps member
      · rw [walkPages, if_pos all, Option.some.injEq] at walk
        subst walk
        intro page place' maps member
        refine wrong page place' maps (mem_leafReads.mpr ?_)
        obtain ⟨offset, offset_lt, page_eq, place_eq⟩ := mem_leafReads.mp member
        exact ⟨offset, by omega, page_eq, place_eq⟩

end Row

end Ftl
end StorageStack
