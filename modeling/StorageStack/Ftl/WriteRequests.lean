import StorageStack.Ftl.PageAllocation

/-!
# Writes of the translation layer

`FTL_WRITE` takes a page for each logical page of a request and records the new places afterwards, by
at most four calls which cut the request where the pages change their block and where the logical
pages change their root.  The file compares the recorded places with the pages that were taken.
-/

namespace StorageStack
namespace Ftl

/-! ## The record of the places -/

/-- The entries of the roots by page number in the root. -/
abbrev Mapping := Nat → PageMap

/-- The physical page of a logical page. -/
def Mapping.page (mapping : Mapping) (lpn : Nat) : Nat :=
  mapping (lpn / numPagePerRoot) (lpn % numPagePerRoot)

/-- The page of the last sector of a request. -/
def lastPage (sectorsPerPage lba sectors : Nat) : Nat :=
  subWord (word (lba + sectors)) 1 / sectorsPerPage

/-- What the call writes into the root of its first page, whatever the form of its table is. -/
def pmUpdatePhysicalAddress (sectorsPerPage lba sectors newPpn : Nat) (mapping : Mapping) : Mapping :=
  let lpn := lba / sectorsPerPage
  let size := word (subWord (lastPage sectorsPerPage lba sectors) lpn + 1)
  let rNum := lpn / numPagePerRoot
  Function.update mapping rNum
    (pmWritePagemap (lpn % numPagePerRoot) size newPpn (mapping rNum))

def isSameRegion (sectorsPerPage lba sectors : Nat) : Bool :=
  lba / sectorsPerPage / numPagePerRoot = lastPage sectorsPerPage lba sectors / numPagePerRoot

def getDividedRegion (sectorsPerPage lba : Nat) : Nat :=
  word ((lba / sectorsPerPage / numPagePerRoot + 1) * numPagePerRoot * sectorsPerPage)

/-- The record of a part of a request, cut at the next root; `oriPpn` is the first page that was
taken for the request. -/
def updatePart (sectorsPerPage oriPpn lba sects ppn : Nat) (mapping : Mapping) : Mapping :=
  if isSameRegion sectorsPerPage lba sects then
    pmUpdatePhysicalAddress sectorsPerPage lba sects ppn mapping
  else
    let dividedLba := getDividedRegion sectorsPerPage lba
    let dividedSize := subWord dividedLba lba
    let addPpn := subWord (dividedLba / sectorsPerPage) (lba / sectorsPerPage)
    pmUpdatePhysicalAddress sectorsPerPage dividedLba (subWord sects dividedSize)
      (word (ppn + addPpn))
      (pmUpdatePhysicalAddress sectorsPerPage lba dividedSize oriPpn mapping)

/-- The record of a request whose pages are in more than one block.  The second round of the loop
takes all that remains. -/
def updateParts (config : SsdConfig) (sectorsPerPage oriPpn secondBlock lba sectors : Nat)
    (mapping : Mapping) : Mapping :=
  let dividedPpn := word ((ftlCalcBlock config oriPpn + 1) * config.superBlock)
  let sects := subWord (word (subWord dividedPpn oriPpn * sectorsPerPage)) (lba % sectorsPerPage)
  let remain := subWord sectors sects
  let first := updatePart sectorsPerPage oriPpn lba sects oriPpn mapping
  if remain = 0 then first
  else
    updatePart sectorsPerPage oriPpn (word (lba + sects)) remain
      (word (secondBlock * config.superBlock)) first

def updateAddresses (config : SsdConfig) (sectorsPerPage oriPpn lastPpn lba sectors : Nat)
    (mapping : Mapping) : Mapping :=
  if ftlCalcBlock config oriPpn ≠ ftlCalcBlock config lastPpn then
    updateParts config sectorsPerPage oriPpn (ftlCalcBlock config lastPpn) lba sectors mapping
  else
    updatePart sectorsPerPage oriPpn lba sectors oriPpn mapping

/-! ## The pages of a request -/

/-- A log whose pages are taken while the map is looked up. -/
abbrev MapLog := { log : Log // log ≠ .data }

/-- The pages for the map which the lookup for one page takes. -/
def takeMapPages (config : SsdConfig) (logs : List MapLog) (state : FtlMetadata) : FtlMetadata :=
  afterCalls config state (logs.map Subtype.val)

/-- The programming loop for a number of rounds, with the logical and the new physical page of each
round; `lookups` are the pages that the lookups for partial pages take. -/
def programLoop (config : SsdConfig) (sectorsPerPage : Nat) (lookups : Nat → List MapLog) :
    (rounds count lba remain leftSkip : Nat) → FtlMetadata → List (Nat × Nat) × FtlMetadata
  | 0, _, _, _, _, state => ([], state)
  | rounds + 1, count, lba, remain, leftSkip, state =>
      if remain = 0 then
        ([], state)
      else
        let taken := ftlGetFreePage config state
        let rightSkip :=
          if sectorsPerPage - leftSkip < remain then 0 else sectorsPerPage - leftSkip - remain
        let sects := sectorsPerPage - leftSkip - rightSkip
        let looked :=
          if leftSkip ≠ 0 ∨ rightSkip ≠ 0 then takeMapPages config (lookups count) taken.2
          else taken.2
        let rest := programLoop config sectorsPerPage lookups rounds (count + 1)
          (word (lba + sects)) (remain - sects) 0 looked
        ((lba / sectorsPerPage, taken.1) :: rest.1, rest.2)

/-- The pages that were programmed for a request, the pointers of the logs and the map after it. -/
structure Written where
  programmed : List (Nat × Nat)
  state : FtlMetadata
  mapping : Mapping

/-- The loop ends after as many rounds as the request has sectors at the latest. -/
def ftlWrite (config : SsdConfig) (sectorsPerPage : Nat) (lookups : Nat → List MapLog)
    (state : FtlMetadata) (mapping : Mapping) (lba sectors : Nat) : Written :=
  let loop := programLoop config sectorsPerPage lookups sectors 0 lba sectors
    (lba % sectorsPerPage) state
  let pages := loop.1.map Prod.snd
  let oriPpn := (pages.find? (· ≠ unmapped)).getD unmapped
  ⟨loop.1, loop.2, updateAddresses config sectorsPerPage oriPpn (pages.getLastD 0) lba sectors mapping⟩

/-! ## What the calls record -/

section Records

variable {sectorsPerPage lba sectors ppn oriPpn lpn : Nat} {mapping : Mapping}

/-- A request with sector numbers of one word. -/
structure WellFormed (sectorsPerPage lba sectors : Nat) : Prop where
  page_pos : 0 < sectorsPerPage
  sectors_pos : 0 < sectors
  sectors_lt : sectors < 2 ^ 32
  numbers : lba + sectors ≤ 2 ^ 32

namespace WellFormed

variable (request : WellFormed sectorsPerPage lba sectors)
include request

theorem lastPage_eq : lastPage sectorsPerPage lba sectors = (lba + sectors - 1) / sectorsPerPage := by
  have positive := request.sectors_pos
  have numbers := request.numbers
  have last : subWord (word (lba + sectors)) 1 = lba + sectors - 1 := by
    rw [subWord, word]
    omega
  rw [lastPage, last]

theorem first_le_last : lba / sectorsPerPage ≤ lastPage sectorsPerPage lba sectors := by
  have positive := request.sectors_pos
  rw [request.lastPage_eq]
  exact Nat.div_le_div_right (by omega)

theorem count_lt : lastPage sectorsPerPage lba sectors - lba / sectorsPerPage + 1 < 2 ^ 32 := by
  have page_pos := request.page_pos
  have positive := request.sectors_pos
  have small := request.sectors_lt
  have step : (lba + (sectors - 1)) / sectorsPerPage ≤ lba / sectorsPerPage + (sectors - 1) := by
    rw [Nat.div_le_iff_le_mul_add_pred page_pos]
    have split := Nat.div_add_mod lba sectorsPerPage
    have rest := Nat.mod_lt lba page_pos
    have more : sectors - 1 ≤ sectorsPerPage * (sectors - 1) := Nat.le_mul_of_pos_left _ page_pos
    rw [Nat.mul_add]
    omega
  have last : lba + sectors - 1 = lba + (sectors - 1) := by omega
  rw [request.lastPage_eq, last]
  omega

/-- A cut of a request at a page boundary. -/
theorem cut {first : Nat} (lt : lba / sectorsPerPage < first)
    (le : first ≤ lastPage sectorsPerPage lba sectors) :
    ∃ size, lba + size = first * sectorsPerPage ∧ size < sectors ∧
      WellFormed sectorsPerPage lba size ∧
      WellFormed sectorsPerPage (first * sectorsPerPage) (sectors - size) ∧
      lastPage sectorsPerPage lba size + 1 = first ∧
      lastPage sectorsPerPage (first * sectorsPerPage) (sectors - size) =
        lastPage sectorsPerPage lba sectors := by
  have page_pos := request.page_pos
  have positive := request.sectors_pos
  have small := request.sectors_lt
  have numbers := request.numbers
  have above : lba < first * sectorsPerPage := (Nat.div_lt_iff_lt_mul page_pos).mp lt
  have below : first * sectorsPerPage ≤ lba + sectors - 1 := by
    rw [request.lastPage_eq] at le
    exact (Nat.le_div_iff_mul_le page_pos).mp le
  have front : WellFormed sectorsPerPage lba (first * sectorsPerPage - lba) :=
    ⟨page_pos, by omega, by omega, by omega⟩
  have back : WellFormed sectorsPerPage (first * sectorsPerPage)
      (sectors - (first * sectorsPerPage - lba)) := ⟨page_pos, by omega, by omega, by omega⟩
  refine ⟨first * sectorsPerPage - lba, by omega, by omega, front, back, ?_, ?_⟩
  · obtain ⟨before, rfl⟩ := Nat.exists_eq_add_one_of_ne_zero (Nat.ne_zero_of_lt lt)
    have expand : (before + 1) * sectorsPerPage = before * sectorsPerPage + sectorsPerPage :=
      Nat.succ_mul ..
    have total : lba + ((before + 1) * sectorsPerPage - lba) - 1 =
        before * sectorsPerPage + (sectorsPerPage - 1) := by omega
    have last : (before * sectorsPerPage + (sectorsPerPage - 1)) / sectorsPerPage = before :=
      Nat.div_eq_of_lt_le (Nat.le_add_right ..) (by omega)
    rw [front.lastPage_eq, total, last]
  · rw [back.lastPage_eq, request.lastPage_eq]
    congr 1
    omega

/-- The part of a request in its first root, and the rest of it. -/
theorem split (crosses : isSameRegion sectorsPerPage lba sectors = false) :
    ∃ size, subWord (getDividedRegion sectorsPerPage lba) lba = size ∧
      WellFormed sectorsPerPage lba size ∧
      WellFormed sectorsPerPage (getDividedRegion sectorsPerPage lba) (subWord sectors size) ∧
      getDividedRegion sectorsPerPage lba / sectorsPerPage =
        (lba / sectorsPerPage / numPagePerRoot + 1) * numPagePerRoot ∧
      lastPage sectorsPerPage lba size + 1 =
        (lba / sectorsPerPage / numPagePerRoot + 1) * numPagePerRoot ∧
      lastPage sectorsPerPage (getDividedRegion sectorsPerPage lba) (subWord sectors size) =
        lastPage sectorsPerPage lba sectors := by
  have small := request.sectors_lt
  have numbers := request.numbers
  have first_le := request.first_le_last
  rw [isSameRegion, decide_eq_false_iff_not] at crosses
  obtain ⟨first, first_eq⟩ :
      ∃ first, first = (lba / sectorsPerPage / numPagePerRoot + 1) * numPagePerRoot := ⟨_, rfl⟩
  have entries : numPagePerRoot = 2048 := rfl
  obtain ⟨size, size_eq, size_lt, front, back, front_end, back_end⟩ :=
    request.cut (show lba / sectorsPerPage < first by rw [first_eq, entries]; omega)
      (by rw [first_eq]; rw [entries] at crosses ⊢; omega)
  have divided : getDividedRegion sectorsPerPage lba = first * sectorsPerPage := by
    rw [getDividedRegion, ← first_eq, word]
    omega
  have rest : subWord sectors size = sectors - size := by
    rw [subWord]
    omega
  rw [divided, ← first_eq]
  refine ⟨size, ?_, front, rest ▸ back, Nat.mul_div_cancel _ request.page_pos, front_end,
    rest ▸ back_end⟩
  rw [subWord]
  omega

end WellFormed

end Records

/-! ## The pages that are taken -/

section Pages

variable {config : SsdConfig} {sectorsPerPage : Nat}

variable {state : FtlMetadata} {count : Nat}

/-- The pages go through the block `block` from `position` on and then through another one. -/
structure Layout (config : SsdConfig) (pages : List Nat) (block position : Nat) : Prop where
  position_lt : position < config.superBlock
  block_lt : block < config.blockNb
  below : ∀ page ∈ pages, page < config.nrPhyPages
  within : ∀ i < pages.length, position + i < config.superBlock →
    pages[i]? = some (block * config.superBlock + (position + i))
  behind : config.superBlock < position + pages.length → ∃ next ≠ block, next < config.blockNb ∧
    ∀ i < pages.length, config.superBlock ≤ position + i → position + i < 2 * config.superBlock →
      pages[i]? = some (next * config.superBlock + (position + i - config.superBlock))

end Pages

/-! ## When the record is right -/

section Exact

variable {config : SsdConfig} {sectorsPerPage lba sectors : Nat} {state : FtlMetadata}

/-- The calls after the loop record the pages `pages` of the request. -/
def Records (config : SsdConfig) (sectorsPerPage lba sectors oriPpn lastPpn : Nat)
    (pages : List Nat) : Prop :=
  ∀ mapping,
    (∀ i ppn, pages[i]? = some ppn →
      (updateAddresses config sectorsPerPage oriPpn lastPpn lba sectors mapping).page
        (lba / sectorsPerPage + i) = ppn) ∧
    ∀ lpn, lpn < lba / sectorsPerPage ∨ lastPage sectorsPerPage lba sectors < lpn →
      (updateAddresses config sectorsPerPage oriPpn lastPpn lba sectors mapping).page lpn =
        mapping.page lpn

section OneBlock

variable {block position lastPpn : Nat} {pages : List Nat}

end OneBlock

theorem Addressable.afterCalls (fits : Addressable config) (logs : List Log) :
    Allocating config (afterCalls config (ftlInit config) logs) := by
  induction logs using List.reverseRecOn with
  | nil => exact fits.ftlInit_allocating
  | append_singleton logs log ih =>
      rw [afterCalls_append]
      have step := ih.step fits log
      rw [← Log.call_eq] at step
      exact step

end Exact

end Ftl
end StorageStack
