import StorageStack.Ftl.ExtentsNode

/-!
# The page allocators of the translation layer

Three logs take their pages from super blocks: the data log and the map log share a pointer that
rotates over the blocks behind the reserved region, and the reserved log rotates over the reserved
region itself.  A log notices that its block is used up when the page behind the last one it
returned lies in another block.
-/

namespace StorageStack
namespace Ftl

/-- The values of the configuration file which the allocators use. -/
structure SsdConfig where
  pageNb : Nat
  wayNb : Nat
  flashNb : Nat
  blockNb : Nat
deriving DecidableEq, Repr

abbrev nrReservedPhySuperBlocks : Nat := 4

namespace SsdConfig

/-- The pages of one super block. -/
def superBlock (config : SsdConfig) : Nat := config.pageNb * config.wayNb * config.flashNb

def nrPhyPages (config : SsdConfig) : Nat := config.blockNb * config.superBlock

def nrReservedPhyPages (config : SsdConfig) : Nat := nrReservedPhySuperBlocks * config.superBlock

end SsdConfig

inductive Log
  | reserved
  | map
  | data
deriving DecidableEq, Repr

/-- `active` holds `reserved_block_ptr`, `write_map_block_ptr` and `write_block_ptr`, and `next`
holds `reserved_write_ptr`, `write_map_ptr` and `write_ptr`. -/
structure FtlMetadata where
  active : Log → Nat
  next : Log → Nat
  blockPtr : Nat

variable {config : SsdConfig}

/-! ## The code -/

def ftlCalcBlock (config : SsdConfig) (ppn : Nat) : Nat :=
  ppn / (config.wayNb * config.flashNb) / config.pageNb

/-- The first page which a log takes of a block: page 0 stands for a failure. -/
def firstPage (config : SsdConfig) : Log → Nat → Nat
  | .reserved, 0 => 1
  | _, blk => word (blk * config.superBlock)

def ftlInit (config : SsdConfig) : FtlMetadata where
  active
    | .reserved => 0
    | .map => nrReservedPhySuperBlocks + 1
    | .data => nrReservedPhySuperBlocks
  next
    | .reserved => 1
    | .map => word ((nrReservedPhySuperBlocks + 1) * config.superBlock)
    | .data => word (nrReservedPhySuperBlocks * config.superBlock)
  blockPtr := nrReservedPhySuperBlocks + 2

/-- The block behind `res` outside the reserved region. -/
def rotate (config : SsdConfig) (res : Nat) : Nat :=
  if config.blockNb ≤ res + 1 then nrReservedPhySuperBlocks else res + 1

/-- The loop of `ftl_get_free_block` with `i` tries left. -/
def freeBlockLoop (config : SsdConfig) (state : FtlMetadata) : Nat → Nat → Option Nat
  | 0, _ => none
  | i + 1, res =>
      if state.active .map ≠ rotate config res ∧ state.active .data ≠ rotate config res then
        some (rotate config res)
      else
        freeBlockLoop config state i (rotate config res)

def ftlGetFreeBlock (config : SsdConfig) (state : FtlMetadata) : Option (Nat × FtlMetadata) :=
  (freeBlockLoop config state (config.blockNb - nrReservedPhySuperBlocks) state.blockPtr).map
    fun blk => (blk, { state with blockPtr := blk })

/-- The loop ends in its first round, as the test of the free block map is left out. -/
def ftlGetFreeBlockReserved (state : FtlMetadata) : Option (Nat × FtlMetadata) :=
  let res := if nrReservedPhySuperBlocks ≤ state.active .reserved + 1 then 0
    else state.active .reserved + 1
  some (res, { state with active := Function.update state.active .reserved res })

/-- The block which a log takes next. -/
def Log.freeBlock (config : SsdConfig) : Log → FtlMetadata → Option (Nat × FtlMetadata)
  | .reserved => ftlGetFreeBlockReserved
  | _ => ftlGetFreeBlock config

/-- The page number behind which a log takes a new block in any case. -/
def Log.limit (config : SsdConfig) : Log → Nat
  | .reserved => word config.nrReservedPhyPages
  | _ => config.nrPhyPages

/-- The next page of a log; 0 stands for a failure. -/
def getFreePage (config : SsdConfig) (log : Log) (state : FtlMetadata) : Nat × FtlMetadata :=
  if ftlCalcBlock config (state.next log) ≠ state.active log ∨
      log.limit config < state.next log then
    match log.freeBlock config state with
    | some (blk, state) =>
        (firstPage config log blk,
          { state with
            active := Function.update state.active log blk
            next := Function.update state.next log (word (firstPage config log blk + 1)) })
    | none => (0, state)
  else
    (state.next log,
      { state with next := Function.update state.next log (word (state.next log + 1)) })

def ftlGetFreePageReserved (config : SsdConfig) : FtlMetadata → Nat × FtlMetadata :=
  getFreePage config .reserved

def ftlGetFreeMapPage (config : SsdConfig) : FtlMetadata → Nat × FtlMetadata :=
  getFreePage config .map

def ftlGetFreePage (config : SsdConfig) : FtlMetadata → Nat × FtlMetadata :=
  getFreePage config .data

/-- The function that takes a page for `log`. -/
def Log.call (config : SsdConfig) : Log → FtlMetadata → Nat × FtlMetadata
  | .reserved => ftlGetFreePageReserved config
  | .map => ftlGetFreeMapPage config
  | .data => ftlGetFreePage config

theorem Log.call_eq (log : Log) : log.call config = getFreePage config log := by
  cases log <;> rfl

/-! ## Sequences of calls -/

/-- One call: the log, the page which it returned and the pointers after it. -/
structure Grant where
  log : Log
  page : Nat
  after : FtlMetadata

/-- The calls for a list of logs, one after the other. -/
def allocate (config : SsdConfig) : FtlMetadata → List Log → List Grant
  | _, [] => []
  | state, log :: logs =>
      ⟨log, (log.call config state).1, (log.call config state).2⟩ ::
        allocate config (log.call config state).2 logs

/-- The number of the first page of a block that a log can use. -/
def blockStart (config : SsdConfig) : Log → Nat → Nat
  | .reserved, 0 => 1
  | _, blk => blk * config.superBlock

/-- The pages of a block that a log can use, in increasing order. -/
def blockPages (config : SsdConfig) (log : Log) (blk : Nat) : List Nat :=
  List.range' (blockStart config log blk)
    ((blk + 1) * config.superBlock - blockStart config log blk)

/-- The part of the device in which the pages of a log lie. -/
def Log.lower (config : SsdConfig) : Log → Nat
  | .reserved => 1
  | _ => config.nrReservedPhyPages

def Log.upper (config : SsdConfig) : Log → Nat
  | .reserved => config.nrReservedPhyPages
  | _ => config.nrPhyPages

/-- A call succeeds, stays in its part of the device and in the active block of its log, and the
active blocks of the data and the map log are different and not reserved. -/
structure Grant.Sound (config : SsdConfig) (grant : Grant) : Prop where
  succeeds : grant.page ≠ 0
  lower : grant.log.lower config ≤ grant.page
  upper : grant.page < grant.log.upper config
  active : ftlCalcBlock config grant.page = grant.after.active grant.log
  different : grant.after.active .data ≠ grant.after.active .map
  data_block : nrReservedPhySuperBlocks ≤ grant.after.active .data
  map_block : nrReservedPhySuperBlocks ≤ grant.after.active .map

/-- The pages of a log with the blocks which were active when they were returned. -/
def pagesOf (log : Log) (grants : List Grant) : List (Nat × Nat) :=
  (grants.filter fun grant => grant.log = log).map fun grant => (grant.after.active log, grant.page)

/-- A block with each of its pages. -/
def activation (config : SsdConfig) (log : Log) (blk : Nat) : List (Nat × Nat) :=
  (blockPages config log blk).map fun page => (blk, page)

/-- The pages of a log go through one block after the other, through each from its first page to
its last one. -/
def InWholeBlocks (config : SsdConfig) (log : Log) (pages : List (Nat × Nat)) : Prop :=
  ∃ blocks : List Nat, blocks.IsChain (· ≠ ·) ∧ pages <+: blocks.flatMap (activation config log)

/-- What the three logs promise about every sequence of calls. -/
def LogsKeepApart (config : SsdConfig) : Prop :=
  ∀ logs : List Log,
    (∀ grant ∈ allocate config (ftlInit config) logs, grant.Sound config) ∧
      ∀ log, InWholeBlocks config log (pagesOf log (allocate config (ftlInit config) logs))

/-! ## The pointers between two calls -/

/-- The geometry that page numbers of one word, with page 0 for a failure, allow. -/
structure Addressable (config : SsdConfig) : Prop where
  blocks : nrReservedPhySuperBlocks + 3 ≤ config.blockNb
  pages : 2 ≤ config.superBlock
  numbers : config.nrPhyPages ≤ 2 ^ 32

/-- The blocks are in their parts of the device. -/
structure BlocksApart (config : SsdConfig) (state : FtlMetadata) : Prop where
  reserved_lt : state.active .reserved < nrReservedPhySuperBlocks
  map_le : nrReservedPhySuperBlocks ≤ state.active .map
  map_lt : state.active .map < config.blockNb
  data_le : nrReservedPhySuperBlocks ≤ state.active .data
  data_lt : state.active .data < config.blockNb
  different : state.active .data ≠ state.active .map
  pointer_le : nrReservedPhySuperBlocks ≤ state.blockPtr
  pointer_lt : state.blockPtr < config.blockNb

/-- `count` pages of the active block of `log` have been returned. -/
structure Returned (config : SsdConfig) (state : FtlMetadata) (log : Log) (count : Nat) : Prop where
  count_le : count ≤ (blockPages config log (state.active log)).length
  next_eq : state.next log = word (blockStart config log (state.active log) + count)

structure Allocating (config : SsdConfig) (state : FtlMetadata) : Prop where
  blocks : BlocksApart config state
  returned : ∀ log, ∃ count, Returned config state log count

namespace Addressable

variable (fits : Addressable config)
include fits

theorem end_le {blk : Nat} (blk_lt : blk < config.blockNb) : (blk + 1) * config.superBlock ≤ 2 ^ 32 :=
  (Nat.mul_le_mul_right _ blk_lt).trans fits.numbers

theorem start_lt_end (log : Log) (blk : Nat) :
    blockStart config log blk < (blk + 1) * config.superBlock := by
  have pages := fits.pages
  cases log <;> cases blk <;> simp only [blockStart] <;> nlinarith

theorem length_blockPages (log : Log) (blk : Nat) :
    blockStart config log blk + (blockPages config log blk).length =
      (blk + 1) * config.superBlock := by
  have start := fits.start_lt_end log blk
  simp only [blockPages, List.length_range']
  omega

theorem mul_le_start (log : Log) (blk : Nat) :
    blk * config.superBlock ≤ blockStart config log blk := by
  have pages := fits.pages
  cases log <;> cases blk <;> simp only [blockStart] <;> omega

theorem start_pos {log : Log} {blk : Nat} (usable : log = .reserved ∨ 0 < blk) : 0 < blockStart config log blk := by
  have pages := fits.pages
  rcases usable with rfl | positive
  · cases blk <;> simp only [blockStart] <;> nlinarith
  · exact lt_of_lt_of_le (by nlinarith) (fits.mul_le_start log blk)

theorem firstPage_eq {log : Log} {blk : Nat} (blk_lt : blk < config.blockNb) :
    firstPage config log blk = blockStart config log blk := by
  have small := fits.end_le blk_lt
  have start := fits.start_lt_end log blk
  have below := fits.mul_le_start log blk
  have word_eq : word (blk * config.superBlock) = blk * config.superBlock :=
    Nat.mod_eq_of_lt (by omega)
  cases log <;> cases blk <;> simp only [firstPage, blockStart] <;> exact word_eq

end Addressable

theorem ftlCalcBlock_eq (config : SsdConfig) (ppn : Nat) :
    ftlCalcBlock config ppn = ppn / config.superBlock := by
  rw [ftlCalcBlock, Nat.div_div_eq_div_mul, SsdConfig.superBlock]
  congr 1
  ring

theorem ftlCalcBlock_of_mem {blk page : Nat} (start_le : blk * config.superBlock ≤ page)
    (lt_end : page < (blk + 1) * config.superBlock) : ftlCalcBlock config page = blk := by
  rw [ftlCalcBlock_eq]
  exact Nat.div_eq_of_lt_le start_le lt_end

theorem rotate_mem {res : Nat} (blocks : nrReservedPhySuperBlocks < config.blockNb)
    (res_le : nrReservedPhySuperBlocks ≤ res) :
    nrReservedPhySuperBlocks ≤ rotate config res ∧ rotate config res < config.blockNb := by
  unfold rotate
  split <;> omega

/-- The loop returns a block behind the reserved region which is not active. -/
theorem freeBlockLoop_spec {state : FtlMetadata} {tries res blk : Nat}
    (blocks : nrReservedPhySuperBlocks < config.blockNb) (res_le : nrReservedPhySuperBlocks ≤ res)
    (found : freeBlockLoop config state tries res = some blk) :
    nrReservedPhySuperBlocks ≤ blk ∧ blk < config.blockNb ∧
      blk ≠ state.active .map ∧ blk ≠ state.active .data := by
  induction tries generalizing res with
  | zero => simp [freeBlockLoop] at found
  | succ tries ih =>
      obtain ⟨le, lt⟩ := rotate_mem blocks res_le
      simp only [freeBlockLoop] at found
      split at found
      · rename_i free
        obtain rfl := Option.some.inj found
        exact ⟨le, lt, free.1.symm, free.2.symm⟩
      · exact ih le found

/-- Three tries are enough: they see three blocks, and two are active. -/
theorem freeBlockLoop_isSome (state : FtlMetadata) (more : Nat) {res : Nat}
    (blocks : nrReservedPhySuperBlocks + 3 ≤ config.blockNb)
    (res_le : nrReservedPhySuperBlocks ≤ res) :
    ∃ blk, freeBlockLoop config state (more + 3) res = some blk := by
  have some_block : nrReservedPhySuperBlocks < config.blockNb := by omega
  have first := rotate_mem some_block res_le
  have second := rotate_mem some_block first.1
  have step : ∀ res, nrReservedPhySuperBlocks ≤ res → res < config.blockNb →
      rotate config res ≠ res ∧ rotate config (rotate config res) ≠ res := by
    intro res le lt
    unfold rotate
    split_ifs <;> omega
  have one := step _ first.1 first.2
  have two := step _ second.1 second.2
  simp only [freeBlockLoop]
  split_ifs with free again last
  · exact ⟨_, rfl⟩
  · exact ⟨_, rfl⟩
  · exact ⟨_, rfl⟩
  · exfalso
    omega

theorem ftlGetFreeBlock_spec {state : FtlMetadata} (fits : Addressable config)
    (apart : BlocksApart config state) :
    ∃ blk, ftlGetFreeBlock config state = some (blk, { state with blockPtr := blk }) ∧
      nrReservedPhySuperBlocks ≤ blk ∧ blk < config.blockNb ∧
      blk ≠ state.active .map ∧ blk ≠ state.active .data := by
  have blocks := fits.blocks
  obtain ⟨more, tries⟩ : ∃ more, config.blockNb - nrReservedPhySuperBlocks = more + 3 :=
    Nat.exists_eq_add_of_le' (by omega)
  obtain ⟨blk, found⟩ := freeBlockLoop_isSome state more blocks apart.pointer_le
  refine ⟨blk, by rw [ftlGetFreeBlock, tries, found]; rfl, ?_⟩
  exact freeBlockLoop_spec (by omega) apart.pointer_le found

/-- The page behind a block lies in another block, also when its number starts again at 0. -/
theorem ftlCalcBlock_end_ne {blk : Nat} (fits : Addressable config)
    (blk_lt : blk < config.blockNb) :
    ftlCalcBlock config (word ((blk + 1) * config.superBlock)) ≠ blk := by
  have pages := fits.pages
  have blocks := fits.blocks
  rw [ftlCalcBlock_eq]
  rcases Nat.lt_or_ge ((blk + 1) * config.superBlock) (2 ^ 32) with small | large
  · rw [word, Nat.mod_eq_of_lt small, Nat.mul_div_cancel _ (by omega)]
    omega
  · have last : (blk + 1) * config.superBlock = 2 ^ 32 := le_antisymm (fits.end_le blk_lt) large
    have all : config.blockNb ≤ blk + 1 := by
      have numbers : config.blockNb * config.superBlock ≤ 2 ^ 32 := fits.numbers
      rw [← last] at numbers
      exact Nat.le_of_mul_le_mul_right numbers (by omega)
    rw [last, word, Nat.mod_self, Nat.zero_div]
    omega

/-! ## One call -/

theorem Returned.congr {state other : FtlMetadata} {log : Log} {count : Nat}
    (returned : Returned config state log count) (active : other.active log = state.active log)
    (next : other.next log = state.next log) : Returned config other log count :=
  ⟨active ▸ returned.count_le, by rw [next, active, returned.next_eq]⟩

section Calls

variable {state : FtlMetadata} {log : Log} {count : Nat}

theorem BlocksApart.active_lt (apart : BlocksApart config state) (fits : Addressable config)
    (log : Log) :
    state.active log < config.blockNb := by
  have blocks := fits.blocks
  have reserved := apart.reserved_lt
  cases log
  · omega
  · exact apart.map_lt
  · exact apart.data_lt

/-- The active block lies below the page number at which the log gives it up in any case. -/
theorem BlocksApart.end_le_limit (apart : BlocksApart config state) (fits : Addressable config)
    (log : Log) :
    (state.active log + 1) * config.superBlock ≤ log.limit config := by
  have blocks := fits.blocks
  have pages := fits.pages
  have numbers : config.blockNb * config.superBlock ≤ 2 ^ 32 := fits.numbers
  have active_lt := apart.active_lt fits log
  cases log
  · have reserved : nrReservedPhySuperBlocks * config.superBlock < 2 ^ 32 :=
      lt_of_lt_of_le (Nat.mul_lt_mul_of_pos_right (by omega) (by omega)) numbers
    rw [Log.limit, SsdConfig.nrReservedPhyPages, word, Nat.mod_eq_of_lt reserved]
    exact Nat.mul_le_mul_right _ apart.reserved_lt
  · exact Nat.mul_le_mul_right _ active_lt
  · exact Nat.mul_le_mul_right _ active_lt

/-- A pointer within its block and below the limit is returned and moves on. -/
theorem getFreePage_next {page : Nat} (pointer : state.next log = page)
    (block : ftlCalcBlock config page = state.active log) (below : page ≤ log.limit config) :
    getFreePage config log state =
      (page, { state with next := Function.update state.next log (word (page + 1)) }) := by
  rw [getFreePage, if_neg, pointer]
  rw [not_or, not_not, pointer]
  exact ⟨block, not_lt.mpr below⟩

/-- As long as the active block has pages left a call returns the next one. -/
theorem getFreePage_within (fits : Addressable config) (apart : BlocksApart config state)
    (returned : Returned config state log count)
    (left : count < (blockPages config log (state.active log)).length) :
    getFreePage config log state =
      (blockStart config log (state.active log) + count,
        { state with
          next := Function.update state.next log
            (word (blockStart config log (state.active log) + (count + 1))) }) := by
  have active_lt := apart.active_lt fits log
  have small := fits.end_le active_lt
  have length := fits.length_blockPages log (state.active log)
  have start := fits.mul_le_start log (state.active log)
  have limit := apart.end_le_limit fits log
  have next_eq : state.next log = blockStart config log (state.active log) + count := by
    rw [returned.next_eq, word, Nat.mod_eq_of_lt (by omega)]
  exact getFreePage_next next_eq (ftlCalcBlock_of_mem (by omega) (by omega)) (by omega)

/-- A log whose block is used up gets another one, which no log uses. -/
theorem Log.freeBlock_spec (fits : Addressable config) (apart : BlocksApart config state)
    (log : Log) :
    ∃ blk other, log.freeBlock config state = some (blk, other) ∧ blk ≠ state.active log ∧
      Function.update other.active log blk = Function.update state.active log blk ∧
      other.next = state.next ∧
      BlocksApart config { other with active := Function.update state.active log blk } := by
  have blocks := fits.blocks
  cases log
  case reserved =>
    have reserved := apart.reserved_lt
    obtain ⟨blk, blk_eq⟩ : ∃ blk, blk = if nrReservedPhySuperBlocks ≤ state.active .reserved + 1
      then 0 else state.active .reserved + 1 := ⟨_, rfl⟩
    have four : nrReservedPhySuperBlocks = 4 := rfl
    have next : blk < nrReservedPhySuperBlocks ∧ blk ≠ state.active .reserved := by
      split_ifs at blk_eq <;> omega
    refine ⟨blk, { state with active := Function.update state.active .reserved blk }, ?_, next.2,
      Function.update_idem .., rfl, { apart with reserved_lt := next.1 }⟩
    rw [blk_eq]
    rfl
  case map =>
    obtain ⟨blk, found, le, lt, _, data⟩ := ftlGetFreeBlock_spec fits apart
    refine ⟨blk, { state with blockPtr := blk }, found, ‹_›, rfl, rfl, ?_⟩
    exact { apart with
      map_le := le, map_lt := lt, different := data.symm, pointer_le := le, pointer_lt := lt }
  case data =>
    obtain ⟨blk, found, le, lt, map, _⟩ := ftlGetFreeBlock_spec fits apart
    refine ⟨blk, { state with blockPtr := blk }, found, ‹_›, rfl, rfl, ?_⟩
    exact { apart with
      data_le := le, data_lt := lt, different := map, pointer_le := le, pointer_lt := lt }

/-- When the active block has no page left a call returns the first page of another one. -/
theorem getFreePage_switch (fits : Addressable config) (apart : BlocksApart config state)
    (returned : Returned config state log (blockPages config log (state.active log)).length) :
    ∃ blk next, getFreePage config log state = (blockStart config log blk, next) ∧
      blk ≠ state.active log ∧ next.active = Function.update state.active log blk ∧
      next.next = Function.update state.next log (word (blockStart config log blk + 1)) ∧
      BlocksApart config next := by
  have switch : ftlCalcBlock config (state.next log) ≠ state.active log := by
    rw [returned.next_eq, fits.length_blockPages]
    exact ftlCalcBlock_end_ne fits (apart.active_lt fits log)
  obtain ⟨blk, other, found, different, active, next, kept⟩ := log.freeBlock_spec fits apart
  have blk_lt : blk < config.blockNb := by
    have lt := kept.active_lt fits log
    simpa only [Function.update_self] using lt
  rw [getFreePage, if_pos (Or.inl switch), found]
  dsimp only
  rw [fits.firstPage_eq blk_lt, active, next]
  exact ⟨blk, _, rfl, different, rfl, rfl, { kept with }⟩

/-- A call returns a page of the block which is active after it, the next one or the first, and
the other logs keep their place. -/
theorem getFreePage_spec (fits : Addressable config) (apart : BlocksApart config state)
    (returned : Returned config state log count) :
    ∃ position next, getFreePage config log state =
        (blockStart config log (next.active log) + position, next) ∧
      BlocksApart config next ∧ Returned config next log (position + 1) ∧
      (∀ other, other ≠ log →
        next.active other = state.active other ∧ next.next other = state.next other) ∧
      (next.active log = state.active log ∧ position = count ∨
        next.active log ≠ state.active log ∧ position = 0 ∧
          count = (blockPages config log (state.active log)).length) := by
  rcases Nat.lt_or_ge count (blockPages config log (state.active log)).length with left | full
  · refine ⟨count, (getFreePage config log state).2, ?_⟩
    rw [getFreePage_within fits apart returned left]
    refine ⟨rfl, { apart with }, ⟨left, Function.update_self ..⟩, ?_, .inl ⟨rfl, rfl⟩⟩
    exact fun other different => ⟨rfl, Function.update_of_ne different _ _⟩
  · obtain rfl := le_antisymm returned.count_le full
    obtain ⟨blk, next, step, different, active, pointer, kept⟩ :=
      getFreePage_switch fits apart returned
    have active_log : next.active log = blk := by rw [active, Function.update_self]
    have nonempty : 0 < (blockPages config log blk).length := by
      have start := fits.start_lt_end log blk
      have length := fits.length_blockPages log blk
      omega
    refine ⟨0, next, by rw [step, active_log, Nat.add_zero], kept, ⟨?_, ?_⟩, ?_,
      .inr ⟨active_log ▸ different, rfl, rfl⟩⟩
    · rw [active_log]
      exact nonempty
    · rw [pointer, active_log, Function.update_self]
    · intro other other_ne
      rw [active, pointer]
      exact ⟨Function.update_of_ne other_ne _ _, Function.update_of_ne other_ne _ _⟩

theorem Allocating.step (fits : Addressable config) (allocating : Allocating config state)
    (log : Log) : Allocating config (getFreePage config log state).2 := by
  obtain ⟨count, returned⟩ := allocating.returned log
  obtain ⟨position, next, step, kept, after, others, _⟩ :=
    getFreePage_spec fits allocating.blocks returned
  rw [step]
  refine ⟨kept, fun other => ?_⟩
  by_cases same : other = log
  · exact ⟨position + 1, same ▸ after⟩
  · obtain ⟨count, returned⟩ := allocating.returned other
    exact ⟨count, returned.congr (others other same).1 (others other same).2⟩

theorem Addressable.lower_pos (fits : Addressable config) (log : Log) : 0 < log.lower config := by
  have pages := fits.pages
  cases log
  · exact Nat.one_pos
  · exact Nat.mul_pos (by decide) (by omega)
  · exact Nat.mul_pos (by decide) (by omega)

theorem BlocksApart.end_le_upper (apart : BlocksApart config state) (log : Log) :
    (state.active log + 1) * config.superBlock ≤ log.upper config := by
  cases log
  · exact Nat.mul_le_mul_right _ apart.reserved_lt
  · exact Nat.mul_le_mul_right _ apart.map_lt
  · exact Nat.mul_le_mul_right _ apart.data_lt

theorem BlocksApart.lower_le_start (apart : BlocksApart config state)
    (fits : Addressable config) (log : Log) :
    log.lower config ≤ blockStart config log (state.active log) := by
  cases log
  · exact fits.start_pos (.inl rfl)
  · exact (Nat.mul_le_mul_right _ apart.map_le).trans (fits.mul_le_start _ _)
  · exact (Nat.mul_le_mul_right _ apart.data_le).trans (fits.mul_le_start _ _)

/-- What a call promises holds whenever the pointers are in order. -/
theorem Allocating.sound (fits : Addressable config) (allocating : Allocating config state)
    (log : Log) :
    Grant.Sound config
      ⟨log, (getFreePage config log state).1, (getFreePage config log state).2⟩ := by
  have blocks := fits.blocks
  have pages := fits.pages
  obtain ⟨count, returned⟩ := allocating.returned log
  obtain ⟨position, next, step, kept, after, _, _⟩ :=
    getFreePage_spec fits allocating.blocks returned
  rw [step]
  have start := fits.mul_le_start log (next.active log)
  have length := fits.length_blockPages log (next.active log)
  have position_lt := after.count_le
  have below : blockStart config log (next.active log) + position <
      (next.active log + 1) * config.superBlock := by omega
  have calc_block := ftlCalcBlock_of_mem (start.trans (Nat.le_add_right _ position)) below
  have inside := kept.end_le_upper log
  have above := kept.lower_le_start fits log
  exact {
    succeeds := by
      have positive := fits.lower_pos log
      dsimp only
      omega
    lower := by
      dsimp only
      omega
    upper := by
      dsimp only
      omega
    active := calc_block
    different := kept.different
    data_block := kept.data_le
    map_block := kept.map_le }

end Calls

/-! ## All sequences of calls -/

theorem ftlInit_returned (config : SsdConfig) (log : Log) :
    Returned config (ftlInit config) log 0 := by
  refine ⟨Nat.zero_le _, ?_⟩
  cases log
  · rfl
  · rfl
  · rfl

theorem Addressable.ftlInit_allocating (fits : Addressable config) :
    Allocating config (ftlInit config) := by
  have blocks := fits.blocks
  have four : nrReservedPhySuperBlocks = 4 := rfl
  refine ⟨?_, fun log => ⟨0, ftlInit_returned config log⟩⟩
  constructor <;> simp only [ftlInit] <;> omega

theorem Allocating.all_sound (fits : Addressable config) {state : FtlMetadata}
    (allocating : Allocating config state) (logs : List Log) :
    ∀ grant ∈ allocate config state logs, grant.Sound config := by
  induction logs generalizing state with
  | nil => simp [allocate]
  | cons log logs ih =>
      rw [allocate, log.call_eq, List.forall_mem_cons]
      exact ⟨allocating.sound fits log, ih (allocating.step fits log)⟩

theorem activation_drop (log : Log) (blk : Nat) {position : Nat}
    (position_lt : position < (blockPages config log blk).length) :
    (activation config log blk).drop position =
      (blk, blockStart config log blk + position) ::
        (activation config log blk).drop (position + 1) := by
  have lt : position < (activation config log blk).length := by
    rwa [activation, List.length_map]
  rw [List.drop_eq_getElem_cons lt]
  simp [activation, blockPages]

theorem activation_length {log : Log} {blk : Nat} :
    (activation config log blk).length = (blockPages config log blk).length :=
  List.length_map _

theorem pagesOf_cons_self (log : Log) (page : Nat) (after : FtlMetadata) (grants : List Grant) :
    pagesOf log (⟨log, page, after⟩ :: grants) =
      (after.active log, page) :: pagesOf log grants := by
  simp [pagesOf]

theorem pagesOf_cons_of_ne {log other : Log} (different : other ≠ log) (page : Nat)
    (after : FtlMetadata) (grants : List Grant) :
    pagesOf log (⟨other, page, after⟩ :: grants) = pagesOf log grants := by
  simp [pagesOf, different]

/-- The pages which a log returns from a state on go on in the active block. -/
theorem Allocating.in_whole_blocks (fits : Addressable config) {state : FtlMetadata} {log : Log}
    {count : Nat} (allocating : Allocating config state)
    (returned : Returned config state log count) (logs : List Log) :
    ∃ later : List Nat, (state.active log :: later).IsChain (· ≠ ·) ∧
      pagesOf log (allocate config state logs) <+:
        (activation config log (state.active log)).drop count ++
          later.flatMap (activation config log) := by
  induction logs generalizing state count with
  | nil => exact ⟨[], by simp, by simp [allocate, pagesOf]⟩
  | cons called logs ih =>
      have kept := allocating.step fits called
      rw [allocate, called.call_eq]
      by_cases same : called = log
      · subst same
        obtain ⟨position, next, step, -, after, -, place⟩ :=
          getFreePage_spec fits allocating.blocks returned
        rw [step] at kept ⊢
        obtain ⟨later, chain, pages⟩ := ih kept after
        rw [pagesOf_cons_self]
        have first := activation_drop called (next.active called) after.count_le
        rcases place with ⟨active, rfl⟩ | ⟨active, rfl, rfl⟩
        · refine ⟨later, active ▸ chain, ?_⟩
          rw [← active, first, List.cons_append]
          exact (List.prefix_cons_inj _).mpr pages
        · refine ⟨next.active called :: later, List.isChain_cons_cons.mpr ⟨active.symm, chain⟩, ?_⟩
          rw [← activation_length, List.drop_length, List.nil_append, List.flatMap_cons]
          rw [List.drop_zero] at first
          rw [first, List.cons_append]
          exact (List.prefix_cons_inj _).mpr pages
      · obtain ⟨position, next, step, -, -, others, -⟩ :=
          getFreePage_spec fits allocating.blocks (allocating.returned called).choose_spec
        rw [step] at kept ⊢
        obtain ⟨active, pointer⟩ := others log (Ne.symm same)
        obtain ⟨later, chain, pages⟩ := ih kept (returned.congr active pointer)
        rw [pagesOf_cons_of_ne same]
        exact ⟨later, active ▸ chain, active ▸ pages⟩

/-- On a device whose pages have numbers of one word, in blocks of two pages or more, the logs
return whole blocks outside the blocks of the others. -/
theorem logsKeepApart (config : SsdConfig) (blocks : nrReservedPhySuperBlocks + 3 ≤ config.blockNb)
    (pages : 2 ≤ config.superBlock) (numbers : config.nrPhyPages ≤ 2 ^ 32) :
    LogsKeepApart config := by
  have fits : Addressable config := ⟨blocks, pages, numbers⟩
  have initially := fits.ftlInit_allocating
  intro logs
  refine ⟨initially.all_sound fits logs, fun log => ?_⟩
  obtain ⟨later, chain, returned⟩ :=
    initially.in_whole_blocks fits (ftlInit_returned config log) logs
  exact ⟨_, chain, by simpa only [List.flatMap_cons, List.drop_zero] using returned⟩

/-! ## Devices on which the logs do not keep apart -/

/-- With one page in a block the reserved block 0 has no page that the reserved log could use. -/
theorem not_logsKeepApart_single_page : ¬ LogsKeepApart ⟨1, 1, 1, 7⟩ := by
  intro apart
  have sound := (apart (List.replicate 4 .reserved)).1
  have fourth := sound _ (List.getElem_mem (show 3 < List.length _ by decide))
  exact absurd fourth.active (by decide)

/-- The pointers after `count` pages of the block `blk` when only data pages have been taken. -/
def dataState (config : SsdConfig) (pointer blk count : Nat) : FtlMetadata where
  active := Function.update (ftlInit config).active .data blk
  next := Function.update (ftlInit config).next .data (word (blk * config.superBlock + count))
  blockPtr := pointer

/-- The pointers after a list of calls. -/
def afterCalls (config : SsdConfig) (state : FtlMetadata) (logs : List Log) : FtlMetadata :=
  logs.foldl (fun state log => (log.call config state).2) state

theorem ftlInit_eq_dataState :
    ftlInit config =
      dataState config (nrReservedPhySuperBlocks + 2) nrReservedPhySuperBlocks 0 := by
  simp only [dataState, ftlInit, FtlMetadata.mk.injEq, and_true]
  constructor <;> funext log <;> cases log <;> rfl

section Overflow

variable {pointer blk count : Nat}

theorem ftlGetFreePage_dataState (pointer : Nat) (small : (blk + 1) * config.superBlock ≤ 2 ^ 32)
    (blk_lt : blk < config.blockNb) (count_lt : count < config.superBlock) :
    ftlGetFreePage config (dataState config pointer blk count) =
      (blk * config.superBlock + count, dataState config pointer blk (count + 1)) := by
  have expand := Nat.add_one_mul blk config.superBlock
  have below : (blk + 1) * config.superBlock ≤ config.blockNb * config.superBlock :=
    Nat.mul_le_mul_right _ blk_lt
  have block : ftlCalcBlock config (blk * config.superBlock + count) = blk :=
    ftlCalcBlock_of_mem (Nat.le_add_right _ _) (by omega)
  have pointer_eq :
      (dataState config pointer blk count).next .data = blk * config.superBlock + count := by
    simp only [dataState, Function.update_self]
    exact Nat.mod_eq_of_lt (by omega)
  have limit : blk * config.superBlock + count ≤ config.nrPhyPages := by
    rw [SsdConfig.nrPhyPages]
    omega
  rw [ftlGetFreePage, getFreePage_next pointer_eq _ limit]
  · simp only [dataState, Function.update_idem, Nat.add_assoc]
  · simp only [block, dataState, Function.update_self]

/-- Calls for data pages use the active block up. -/
theorem afterCalls_dataState (pointer count more : Nat)
    (small : (blk + 1) * config.superBlock ≤ 2 ^ 32) (blk_lt : blk < config.blockNb)
    (fits : count + more ≤ config.superBlock) :
    afterCalls config (dataState config pointer blk count) (List.replicate more .data) =
      dataState config pointer blk (count + more) := by
  induction more generalizing count with
  | zero => rfl
  | succ more ih =>
      have step := ftlGetFreePage_dataState pointer small blk_lt (show count < _ by omega)
      rw [List.replicate_succ, afterCalls, List.foldl_cons]
      have rest := ih (count + 1) (by omega)
      rw [Nat.add_right_comm, Nat.add_assoc] at rest
      rw [Log.call, step]
      exact rest

/-- When the active block is used up the next data page comes from the next block. -/
theorem ftlGetFreePage_dataState_end
    (switch : ftlCalcBlock config (word ((blk + 1) * config.superBlock)) ≠ blk)
    (pointer_le : nrReservedPhySuperBlocks + 1 < pointer) (blk_le : blk ≤ pointer)
    (pointer_lt : pointer + 1 < config.blockNb) :
    ftlGetFreePage config (dataState config pointer blk config.superBlock) =
      (word ((pointer + 1) * config.superBlock), dataState config (pointer + 1) (pointer + 1) 1) := by
  have expand := Nat.add_one_mul blk config.superBlock
  have rotated : rotate config pointer = pointer + 1 := if_neg (by omega)
  obtain ⟨tries, fuel⟩ : ∃ tries, config.blockNb - nrReservedPhySuperBlocks = tries + 1 :=
    Nat.exists_eq_succ_of_ne_zero (by omega)
  have free : Log.freeBlock config .data (dataState config pointer blk config.superBlock) =
      some (pointer + 1, dataState config (pointer + 1) blk config.superBlock) := by
    change ftlGetFreeBlock config _ = _
    rw [ftlGetFreeBlock, fuel]
    simp only [freeBlockLoop, dataState, rotated, Function.update_self]
    rw [if_pos]
    · rfl
    · refine ⟨?_, by omega⟩
      change nrReservedPhySuperBlocks + 1 ≠ pointer + 1
      omega
  have used_up : ftlCalcBlock config ((dataState config pointer blk config.superBlock).next .data) ≠
      (dataState config pointer blk config.superBlock).active .data := by
    simpa only [dataState, Function.update_self, expand] using switch
  have first : firstPage config .data (pointer + 1) = word ((pointer + 1) * config.superBlock) := rfl
  rw [ftlGetFreePage, getFreePage, if_pos (.inl used_up), free]
  dsimp only
  rw [first]
  simp only [dataState, Function.update_idem, word, Nat.mod_add_mod]

theorem afterCalls_append (state : FtlMetadata) (left right : List Log) :
    afterCalls config state (left ++ right) =
      afterCalls config (afterCalls config state left) right :=
  List.foldl_append

theorem allocate_append (state : FtlMetadata) (left right : List Log) :
    allocate config state (left ++ right) =
      allocate config state left ++ allocate config (afterCalls config state left) right := by
  induction left generalizing state with
  | nil => rfl
  | cons log left ih =>
      rw [List.cons_append, allocate, allocate, ih, List.cons_append]
      rfl

/-- Data pages take the pointers from the end of one block to the end of the next. -/
theorem exists_next_block (pointer blk : Nat) (positive : 0 < config.superBlock)
    (small : (pointer + 1 + 1) * config.superBlock ≤ 2 ^ 32)
    (pointer_le : nrReservedPhySuperBlocks + 1 < pointer) (blk_le : blk ≤ pointer)
    (pointer_lt : pointer + 1 < config.blockNb) :
    ∃ logs, afterCalls config (dataState config pointer blk config.superBlock) logs =
      dataState config (pointer + 1) (pointer + 1) config.superBlock := by
  have expand := Nat.add_one_mul (pointer + 1) config.superBlock
  have below : (blk + 1) * config.superBlock ≤ (pointer + 1) * config.superBlock :=
    Nat.mul_le_mul_right _ (by omega)
  have switch : ftlCalcBlock config (word ((blk + 1) * config.superBlock)) ≠ blk := by
    rw [word, Nat.mod_eq_of_lt (by omega), ftlCalcBlock_eq, Nat.mul_div_cancel _ positive]
    omega
  have step := ftlGetFreePage_dataState_end switch pointer_le blk_le pointer_lt
  have rest := afterCalls_dataState (pointer + 1) 1 (config.superBlock - 1) small pointer_lt
    (by omega)
  rw [show 1 + (config.superBlock - 1) = config.superBlock by omega] at rest
  refine ⟨.data :: List.replicate (config.superBlock - 1) .data, ?_⟩
  rw [afterCalls, List.foldl_cons, Log.call, step]
  exact rest

/-- The data log reaches every block up to the end of the page numbers. -/
theorem exists_dataState (positive : 0 < config.superBlock) (more : Nat)
    (small : (nrReservedPhySuperBlocks + 3 + more + 1) * config.superBlock ≤ 2 ^ 32)
    (blk_lt : nrReservedPhySuperBlocks + 3 + more < config.blockNb) :
    ∃ logs, afterCalls config (ftlInit config) logs =
      dataState config (nrReservedPhySuperBlocks + 3 + more) (nrReservedPhySuperBlocks + 3 + more)
        config.superBlock := by
  induction more with
  | zero =>
      have below : (nrReservedPhySuperBlocks + 1) * config.superBlock ≤
          (nrReservedPhySuperBlocks + 3 + 1) * config.superBlock :=
        Nat.mul_le_mul_right _ (by omega)
      have fill := afterCalls_dataState (nrReservedPhySuperBlocks + 2) 0 config.superBlock
        (below.trans small) (by omega) (by omega)
      obtain ⟨logs, next⟩ := exists_next_block (nrReservedPhySuperBlocks + 2)
        nrReservedPhySuperBlocks positive small (by omega) (by omega) (by omega)
      refine ⟨List.replicate config.superBlock .data ++ logs, ?_⟩
      rw [afterCalls_append, ftlInit_eq_dataState, fill, Nat.zero_add]
      exact next
  | succ more ih =>
      have below : (nrReservedPhySuperBlocks + 3 + more + 1) * config.superBlock ≤
          (nrReservedPhySuperBlocks + 3 + (more + 1) + 1) * config.superBlock :=
        Nat.mul_le_mul_right _ (by omega)
      obtain ⟨logs, before⟩ := ih (below.trans small) (by omega)
      obtain ⟨others, next⟩ := exists_next_block
        (nrReservedPhySuperBlocks + 3 + more) (nrReservedPhySuperBlocks + 3 + more) positive small (by omega) le_rfl (by omega)
      refine ⟨logs ++ others, ?_⟩
      rw [afterCalls_append, before]
      exact next

/-- The data log returns the page number 0 when a block starts behind the last page number. -/
theorem not_logsKeepApart_of_overflow (more : Nat) (positive : 0 < config.superBlock)
    (overflow : (nrReservedPhySuperBlocks + 3 + more + 1) * config.superBlock = 2 ^ 32)
    (blocks : nrReservedPhySuperBlocks + 3 + more + 1 < config.blockNb) :
    ¬ LogsKeepApart config := by
  intro apart
  obtain ⟨logs, before⟩ := exists_dataState positive more overflow.le (by omega)
  have switch : ftlCalcBlock config
      (word ((nrReservedPhySuperBlocks + 3 + more + 1) * config.superBlock)) ≠
        nrReservedPhySuperBlocks + 3 + more := by
    rw [overflow, word, Nat.mod_self, ftlCalcBlock_eq, Nat.zero_div]
    omega
  have step := ftlGetFreePage_dataState_end switch (by omega) le_rfl blocks
  have sound := (apart (logs ++ [.data])).1
  rw [allocate_append, before] at sound
  have last := sound _ (List.mem_append_right _ List.mem_cons_self)
  apply last.succeeds
  rw [Log.call, step]
  dsimp only
  rw [overflow, word, Nat.mod_self]

end Overflow

/-- Neither a device with one page in a block nor one with more pages than page numbers keeps the
logs apart. -/
theorem not_logsKeepApart :
    ¬ LogsKeepApart ⟨1, 1, 1, 7⟩ ∧ ¬ LogsKeepApart ⟨2 ^ 14, 1, 2 ^ 14, 17⟩ :=
  ⟨not_logsKeepApart_single_page,
    not_logsKeepApart_of_overflow 8 (by norm_num [SsdConfig.superBlock])
      (by norm_num [SsdConfig.superBlock]) (by norm_num)⟩

theorem logsKeepApart_of_128_pages : LogsKeepApart ⟨32, 1, 4, 64⟩ :=
  logsKeepApart _ (by decide) (by decide) (by norm_num [SsdConfig.nrPhyPages, SsdConfig.superBlock])

end Ftl
end StorageStack
