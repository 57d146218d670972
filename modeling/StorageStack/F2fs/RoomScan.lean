import StorageStack.F2fs.DentryBlock

/-!
# The free room of a dentry block

`find_in_block` walks through a block for a name, and on the way it measures the runs of free slots
for the next add.  It counts a free slot only when the slot before it is free too, goes on counting
from one run to the next while the count is no record, and stands still at an entry without a name.
-/

namespace StorageStack.F2fs

/-- The comparison of `find_in_block` at a used slot. -/
def NameMatches (blk : DentryBlock) (name : FileName) (nameHash : BitVec 32) (bitPos : Nat) :
    Prop :=
  earlyMatchName name.bytes.length nameHash (blk.dentry bitPos) = true ∧
    blk.readName bitPos name.bytes.length = name.bytes

instance (blk : DentryBlock) (name : FileName) (nameHash : BitVec 32) (bitPos : Nat) :
    Decidable (NameMatches blk name nameHash bitPos) :=
  inferInstanceAs (Decidable (_ ∧ _))

/-- `max_len` after a free slot. -/
def countFree (blk : DentryBlock) (bitPos maxLen : Nat) : Nat :=
  if bitPos = 0 then 1 else if blk.bitmap (bitPos - 1) = false then maxLen + 1 else maxLen

/-- The loop of `find_in_block`, for as many rounds as it takes; `none` when `rounds` are too few. -/
def findInBlockRun (blk : DentryBlock) (name : FileName) (nameHash : BitVec 32) :
    Nat → Nat → Nat → Nat → Option (Option Nat × Nat)
  | 0, _, _, _ => none
  | rounds + 1, bitPos, maxLen, maxSlots =>
      if nrDentryInBlock ≤ bitPos then some (none, max maxLen maxSlots)
      else if blk.bitmap bitPos = false then
        findInBlockRun blk name nameHash rounds (bitPos + 1) (countFree blk bitPos maxLen) maxSlots
      else if NameMatches blk name nameHash bitPos then some (some bitPos, max maxLen maxSlots)
      else
        findInBlockRun blk name nameHash rounds
          (bitPos + getDentrySlots (blk.dentry bitPos).nameLen)
          (if maxSlots < maxLen then 0 else maxLen) (max maxLen maxSlots)

/-! ## What the scan should measure -/

/-- A run of free slots. -/
structure FreeRun (blk : DentryBlock) (start count : Nat) : Prop where
  inside : start + count ≤ nrDentryInBlock
  free : ∀ slot, start ≤ slot → slot < start + count → blk.bitmap slot = false

/-- The length of the longest run of free slots. -/
def LongestFreeRun (blk : DentryBlock) (longest : Nat) : Prop :=
  IsGreatest {count | ∃ start, FreeRun blk start count} longest

/-- The scan ends, and when it does not find the name `*max_slots` is the larger of its old value
and the longest run. -/
def Measured (blk : DentryBlock) (name : FileName) (nameHash : BitVec 32) (maxSlots : Nat) : Prop :=
  ∃ rounds result, findInBlockRun blk name nameHash rounds 0 0 maxSlots = some result ∧
    (result.1 = none → ∀ longest, LongestFreeRun blk longest → result.2 = max maxSlots longest)

/-! ## The slots that the scan visits -/

/-- The slot that follows a slot without the name. -/
def nextSlot (blk : DentryBlock) (bitPos : Nat) : Nat :=
  if blk.bitmap bitPos = false then bitPos + 1
  else bitPos + getDentrySlots (blk.dentry bitPos).nameLen

/-- From the first slot the scan comes to the second, when no name stops it. -/
inductive Visits (blk : DentryBlock) : Nat → Nat → Prop
  | here (bitPos : Nat) : Visits blk bitPos bitPos
  | next {bitPos slot : Nat} : bitPos < nrDentryInBlock → Visits blk (nextSlot blk bitPos) slot →
      Visits blk bitPos slot

/-- The scan comes to an entry with the name. -/
def NameReached (blk : DentryBlock) (name : FileName) (nameHash : BitVec 32) (start : Nat) : Prop :=
  ∃ slot < nrDentryInBlock, Visits blk start slot ∧ blk.bitmap slot = true ∧
    NameMatches blk name nameHash slot

/-- The room of the block is its first run of free slots: every entry met has a name, a free slot
behind the first run has a used one before it, and no run is longer than the first. -/
structure RoomFirst (blk : DentryBlock) : Prop where
  named : ∀ slot < nrDentryInBlock, Visits blk 0 slot → blk.bitmap slot = true →
    (blk.dentry slot).nameLen ≠ 0
  apart : ∀ slot, slot + 1 < nrDentryInBlock → Visits blk 0 (slot + 1) →
    blk.bitmap (slot + 1) = false → blk.bitmap slot = false →
      ∀ earlier ≤ slot, blk.bitmap earlier = false
  longest : ∀ start count, FreeRun blk start count → FreeRun blk 0 count

variable {blk : DentryBlock} {name : FileName} {nameHash : BitVec 32}

theorem nextSlot_free {bitPos : Nat} (free : blk.bitmap bitPos = false) :
    nextSlot blk bitPos = bitPos + 1 := by
  rw [nextSlot, if_pos free]

theorem nextSlot_used {bitPos : Nat} (used : blk.bitmap bitPos = true) :
    nextSlot blk bitPos = bitPos + getDentrySlots (blk.dentry bitPos).nameLen := by
  rw [nextSlot, if_neg (by simp [used])]

theorem le_nextSlot (blk : DentryBlock) (bitPos : Nat) : bitPos ≤ nextSlot blk bitPos := by
  rw [nextSlot]
  split
  · exact Nat.le_succ _
  · exact Nat.le_add_right _ _

theorem getDentrySlots_pos {len : Nat} (named : len ≠ 0) : 0 < getDentrySlots len := by
  rw [getDentrySlots]
  omega

theorem Visits.le {bitPos slot : Nat} (visits : Visits blk bitPos slot) : bitPos ≤ slot := by
  induction visits with
  | here => exact Nat.le_refl _
  | next _ _ ih => exact (le_nextSlot blk _).trans ih

theorem Visits.trans {first bitPos slot : Nat} (before : Visits blk first bitPos)
    (after : Visits blk bitPos slot) : Visits blk first slot := by
  induction before with
  | here => exact after
  | next inside _ ih => exact .next inside (ih after)

theorem Visits.step {first bitPos : Nat} (before : Visits blk first bitPos)
    (inside : bitPos < nrDentryInBlock) : Visits blk first (nextSlot blk bitPos) :=
  before.trans (.next inside (.here _))

/-! ## One round -/

theorem findInBlockRun_past {rounds bitPos maxLen maxSlots : Nat}
    (past : nrDentryInBlock ≤ bitPos) :
    findInBlockRun blk name nameHash (rounds + 1) bitPos maxLen maxSlots =
      some (none, max maxLen maxSlots) := by
  rw [findInBlockRun, if_pos past]

theorem findInBlockRun_free {rounds bitPos maxLen maxSlots : Nat}
    (inside : bitPos < nrDentryInBlock) (free : blk.bitmap bitPos = false) :
    findInBlockRun blk name nameHash (rounds + 1) bitPos maxLen maxSlots =
      findInBlockRun blk name nameHash rounds (nextSlot blk bitPos)
        (countFree blk bitPos maxLen) maxSlots := by
  rw [findInBlockRun, if_neg (Nat.not_le.2 inside), if_pos free, nextSlot_free free]

theorem findInBlockRun_found {rounds bitPos maxLen maxSlots : Nat}
    (inside : bitPos < nrDentryInBlock) (used : blk.bitmap bitPos = true)
    (same : NameMatches blk name nameHash bitPos) :
    findInBlockRun blk name nameHash (rounds + 1) bitPos maxLen maxSlots =
      some (some bitPos, max maxLen maxSlots) := by
  rw [findInBlockRun, if_neg (Nat.not_le.2 inside), if_neg (by simp [used]), if_pos same]

theorem findInBlockRun_used {rounds bitPos maxLen maxSlots : Nat}
    (inside : bitPos < nrDentryInBlock) (used : blk.bitmap bitPos = true)
    (other : ¬ NameMatches blk name nameHash bitPos) :
    findInBlockRun blk name nameHash (rounds + 1) bitPos maxLen maxSlots =
      findInBlockRun blk name nameHash rounds (nextSlot blk bitPos)
        (if maxSlots < maxLen then 0 else maxLen) (max maxLen maxSlots) := by
  rw [findInBlockRun, if_neg (Nat.not_le.2 inside), if_neg (by simp [used]), if_neg other,
    nextSlot_used used]

/-- What a round does. -/
theorem round_cases (blk : DentryBlock) (name : FileName) (nameHash : BitVec 32) (bitPos : Nat) :
    nrDentryInBlock ≤ bitPos ∨
    (bitPos < nrDentryInBlock ∧ blk.bitmap bitPos = false) ∨
    (bitPos < nrDentryInBlock ∧ blk.bitmap bitPos = true ∧
      NameMatches blk name nameHash bitPos) ∨
    (bitPos < nrDentryInBlock ∧ blk.bitmap bitPos = true ∧
      ¬ NameMatches blk name nameHash bitPos) := by
  rcases Nat.lt_or_ge bitPos nrDentryInBlock with inside | past
  · cases used : blk.bitmap bitPos with
    | false => exact .inr (.inl ⟨inside, rfl⟩)
    | true =>
        by_cases same : NameMatches blk name nameHash bitPos
        · exact .inr (.inr (.inl ⟨inside, rfl, same⟩))
        · exact .inr (.inr (.inr ⟨inside, rfl, same⟩))
  · exact .inl past

/-! ## Names -/

/-- A scan that comes to the name finds one. -/
theorem Visits.found {start slot : Nat} (visits : Visits blk start slot)
    (inside : slot < nrDentryInBlock) (used : blk.bitmap slot = true)
    (same : NameMatches blk name nameHash slot) (maxLen maxSlots : Nat) :
    ∃ rounds pos slots, findInBlockRun blk name nameHash rounds start maxLen maxSlots =
      some (some pos, slots) := by
  induction visits generalizing maxLen maxSlots with
  | here => exact ⟨1, _, _, findInBlockRun_found inside used same⟩
  | @next start slot inside_start _ ih =>
      rcases round_cases blk name nameHash start with
        past | ⟨_, free⟩ | ⟨_, used_start, here⟩ | ⟨_, used_start, other⟩
      · omega
      · obtain ⟨rounds, pos, slots, found⟩ :=
          ih inside used same (countFree blk start maxLen) maxSlots
        exact ⟨rounds + 1, pos, slots, (findInBlockRun_free inside_start free).trans found⟩
      · exact ⟨1, _, _, findInBlockRun_found inside_start used_start here⟩
      · obtain ⟨rounds, pos, slots, found⟩ := ih inside used same
          (if maxSlots < maxLen then 0 else maxLen) (max maxLen maxSlots)
        exact ⟨rounds + 1, pos, slots, (findInBlockRun_used inside_start used_start other).trans found⟩

/-- What a scan finds has the name. -/
theorem nameReached_of_found {rounds start maxLen maxSlots pos slots : Nat}
    (found : findInBlockRun blk name nameHash rounds start maxLen maxSlots =
      some (some pos, slots)) : NameReached blk name nameHash start := by
  induction rounds generalizing start maxLen maxSlots with
  | zero => cases found
  | succ rounds ih =>
      rcases round_cases blk name nameHash start with
        past | ⟨inside, free⟩ | ⟨inside, used, same⟩ | ⟨inside, used, other⟩
      · rw [findInBlockRun_past past] at found
        cases found
      · rw [findInBlockRun_free inside free] at found
        obtain ⟨slot, before, visits, parts⟩ := ih found
        exact ⟨slot, before, .next inside visits, parts⟩
      · exact ⟨start, inside, .here _, used, same⟩
      · rw [findInBlockRun_used inside used other] at found
        obtain ⟨slot, before, visits, parts⟩ := ih found
        exact ⟨slot, before, .next inside visits, parts⟩

/-! ## The end of the scan -/

/-- At a used slot without a name the scan stands still. -/
theorem stands_still {rounds bitPos maxLen maxSlots : Nat} (inside : bitPos < nrDentryInBlock)
    (used : blk.bitmap bitPos = true) (unnamed : (blk.dentry bitPos).nameLen = 0) :
    findInBlockRun blk name nameHash rounds bitPos maxLen maxSlots = none := by
  have other : ¬ NameMatches blk name nameHash bitPos := by
    rintro ⟨early, -⟩
    rw [earlyMatchName, unnamed, Bool.and_eq_true, beq_iff_eq] at early
    exact name.pos.ne early.1
  have stays : nextSlot blk bitPos = bitPos := by
    rw [nextSlot_used used, unnamed]
    rfl
  induction rounds generalizing maxLen maxSlots with
  | zero => rfl
  | succ rounds ih => rw [findInBlockRun_used inside used other, stays, ih]

/-- A scan that ends goes on to its end from every slot that it visits. -/
theorem Visits.ends {start slot rounds maxLen maxSlots : Nat} {result : Option Nat × Nat}
    (visits : Visits blk start slot) (missing : ¬ NameReached blk name nameHash start)
    (ended : findInBlockRun blk name nameHash rounds start maxLen maxSlots = some result) :
    ∃ rounds maxLen maxSlots,
      findInBlockRun blk name nameHash rounds slot maxLen maxSlots = some result := by
  induction visits generalizing rounds maxLen maxSlots with
  | here => exact ⟨rounds, maxLen, maxSlots, ended⟩
  | @next start slot inside _ ih =>
      have missing_next : ¬ NameReached blk name nameHash (nextSlot blk start) := by
        rintro ⟨found, before, visits, parts⟩
        exact missing ⟨found, before, .next inside visits, parts⟩
      cases rounds with
      | zero => cases ended
      | succ rounds =>
          rcases round_cases blk name nameHash start with
            past | ⟨_, free⟩ | ⟨_, used, same⟩ | ⟨_, used, other⟩
          · omega
          · rw [findInBlockRun_free inside free] at ended
            exact ih missing_next ended
          · exact absurd ⟨start, inside, .here _, used, same⟩ missing
          · rw [findInBlockRun_used inside used other] at ended
            exact ih missing_next ended

/-- Where every entry met has a name the scan ends. -/
theorem run_ends (name : FileName) (nameHash : BitVec 32) {start : Nat} (named : ∀ slot < nrDentryInBlock, Visits blk start slot →
      blk.bitmap slot = true → (blk.dentry slot).nameLen ≠ 0) (maxLen maxSlots : Nat) :
    ∃ rounds result,
      findInBlockRun blk name nameHash rounds start maxLen maxSlots = some result := by
  generalize size : nrDentryInBlock - start = left
  induction left using Nat.strong_induction_on generalizing start maxLen maxSlots with
  | _ left ih =>
      have named_next : start < nrDentryInBlock → ∀ slot < nrDentryInBlock,
          Visits blk (nextSlot blk start) slot → blk.bitmap slot = true →
            (blk.dentry slot).nameLen ≠ 0 :=
        fun inside slot before visits => named slot before (.next inside visits)
      rcases round_cases blk name nameHash start with
        past | ⟨inside, free⟩ | ⟨inside, used, same⟩ | ⟨inside, used, other⟩
      · exact ⟨1, _, findInBlockRun_past past⟩
      · have further : nrDentryInBlock - nextSlot blk start < left := by
          rw [nextSlot_free free]
          omega
        obtain ⟨rounds, result, ended⟩ :=
          ih _ further (named_next inside) (countFree blk start maxLen) maxSlots rfl
        exact ⟨rounds + 1, result, (findInBlockRun_free inside free).trans ended⟩
      · exact ⟨1, _, findInBlockRun_found inside used same⟩
      · have further : nrDentryInBlock - nextSlot blk start < left := by
          have slots := getDentrySlots_pos (named start inside (.here _) used)
          rw [nextSlot_used used]
          omega
        obtain ⟨rounds, result, ended⟩ := ih _ further (named_next inside)
          (if maxSlots < maxLen then 0 else maxLen) (max maxLen maxSlots) rfl
        exact ⟨rounds + 1, result, (findInBlockRun_used inside used other).trans ended⟩

/-- A scan that ends gives the result of `find_in_block`. -/
theorem findInBlockFrom_of_run {rounds more bitPos maxLen maxSlots : Nat}
    {result : Option Nat × Nat}
    (ended : findInBlockRun blk name nameHash rounds bitPos maxLen maxSlots = some result)
    (enough : nrDentryInBlock < bitPos + more) :
    findInBlockFrom blk name nameHash more bitPos maxLen maxSlots = result := by
  induction rounds generalizing more bitPos maxLen maxSlots with
  | zero => cases ended
  | succ rounds ih =>
      cases more with
      | zero =>
          have past : nrDentryInBlock ≤ bitPos := Nat.le_of_lt enough
          rw [findInBlockRun_past past] at ended
          exact Option.some.inj ended
      | succ more =>
          rw [findInBlockFrom]
          rcases round_cases blk name nameHash bitPos with
            past | ⟨inside, free⟩ | ⟨inside, used, same⟩ | ⟨inside, used, other⟩
          · rw [findInBlockRun_past past] at ended
            rw [if_pos past]
            exact Option.some.inj ended
          · rw [findInBlockRun_free inside free, nextSlot_free free] at ended
            rw [if_neg (Nat.not_le.2 inside), if_pos free]
            exact ih ended (by omega)
          · rw [findInBlockRun_found inside used same] at ended
            rw [if_neg (Nat.not_le.2 inside), if_neg (by simp [used]),
              if_pos (show _ ∧ _ from same)]
            exact Option.some.inj ended
          · have named : (blk.dentry bitPos).nameLen ≠ 0 := by
              intro unnamed
              rw [stands_still inside used unnamed] at ended
              cases ended
            have slots := getDentrySlots_pos named
            rw [findInBlockRun_used inside used other, nextSlot_used used] at ended
            rw [if_neg (Nat.not_le.2 inside), if_neg (by simp [used]),
              if_neg (show ¬ (_ ∧ _) from other)]
            exact ih ended (by omega)

theorem findInBlock_of_run {rounds maxSlots : Nat} {result : Option Nat × Nat}
    (ended : findInBlockRun blk name nameHash rounds 0 0 maxSlots = some result) :
    findInBlock blk name maxSlots nameHash = result := by
  rw [findInBlock]
  exact findInBlockFrom_of_run ended (by omega)

/-! ## The slots that are counted -/

/-- A free slot is counted when it is the first one or the slot before it is free. -/
def Counts (blk : DentryBlock) (slot : Nat) : Prop :=
  blk.bitmap slot = false ∧ (slot = 0 ∨ blk.bitmap (slot - 1) = false)

instance (blk : DentryBlock) (slot : Nat) : Decidable (Counts blk slot) :=
  inferInstanceAs (Decidable (_ ∧ _))

/-- How many slots a scan of so many rounds counts. -/
def countedFrom (blk : DentryBlock) : Nat → Nat → Nat
  | 0, _ => 0
  | rounds + 1, bitPos =>
      if nrDentryInBlock ≤ bitPos then 0
      else (if Counts blk bitPos then 1 else 0) + countedFrom blk rounds (nextSlot blk bitPos)

theorem countFree_eq {bitPos maxLen : Nat} (fresh : bitPos = 0 → maxLen = 0)
    (free : blk.bitmap bitPos = false) :
    countFree blk bitPos maxLen = maxLen + if Counts blk bitPos then 1 else 0 := by
  simp only [countFree, Counts]
  rcases Nat.eq_zero_or_pos bitPos with rfl | pos
  · simp [fresh rfl, free]
  · simp only [Nat.ne_of_gt pos, if_false, free, true_and, false_or]
    split <;> rfl

theorem not_counts_of_used {slot : Nat} (used : blk.bitmap slot = true) : ¬ Counts blk slot := by
  rintro ⟨free, -⟩
  rw [used] at free
  cases free

theorem countedFrom_past {rounds bitPos : Nat} (past : nrDentryInBlock ≤ bitPos) :
    countedFrom blk rounds bitPos = 0 := by
  cases rounds with
  | zero => rfl
  | succ rounds => rw [countedFrom, if_pos past]

theorem countedFrom_inside {rounds bitPos : Nat} (inside : bitPos < nrDentryInBlock) :
    countedFrom blk (rounds + 1) bitPos =
      (if Counts blk bitPos then 1 else 0) + countedFrom blk rounds (nextSlot blk bitPos) := by
  rw [countedFrom, if_neg (Nat.not_le.2 inside)]

theorem countedFrom_used {rounds bitPos : Nat} (inside : bitPos < nrDentryInBlock)
    (used : blk.bitmap bitPos = true) :
    countedFrom blk (rounds + 1) bitPos = countedFrom blk rounds (nextSlot blk bitPos) := by
  rw [countedFrom_inside inside, if_neg (not_counts_of_used used), Nat.zero_add]

/-- The next round starts with no count when it starts at slot 0. -/
theorem fresh_next_used {bitPos maxLen maxSlots : Nat} (fresh : bitPos = 0 → maxLen = 0) :
    nextSlot blk bitPos = 0 → (if maxSlots < maxLen then 0 else maxLen) = 0 := by
  intro first
  have le := le_nextSlot blk bitPos
  rw [fresh (by omega)]
  simp

theorem fresh_next_free {bitPos maxLen : Nat} (free : blk.bitmap bitPos = false) :
    nextSlot blk bitPos = 0 → countFree blk bitPos maxLen = 0 := by
  intro first
  rw [nextSlot_free free] at first
  cases first

/-- What a scan leaves in `*max_slots`, by the number of slots it counts. -/
structure Bounds (maxLen maxSlots counted slots : Nat) : Prop where
  upper : slots ≤ max maxSlots (maxLen + counted)
  lower : max maxLen maxSlots ≤ slots
  larger : maxSlots < maxLen + counted → maxSlots < slots

theorem run_bounds {rounds bitPos maxLen maxSlots slots : Nat} (fresh : bitPos = 0 → maxLen = 0)
    (ended : findInBlockRun blk name nameHash rounds bitPos maxLen maxSlots =
      some (none, slots)) :
    Bounds maxLen maxSlots (countedFrom blk rounds bitPos) slots := by
  induction rounds generalizing bitPos maxLen maxSlots with
  | zero => cases ended
  | succ rounds ih =>
      rcases round_cases blk name nameHash bitPos with
        past | ⟨inside, free⟩ | ⟨inside, used, same⟩ | ⟨inside, used, other⟩
      · rw [findInBlockRun_past past] at ended
        cases ended
        rw [countedFrom_past past]
        constructor <;> omega
      · rw [findInBlockRun_free inside free] at ended
        have bounds := ih (fresh_next_free free) ended
        rw [countFree_eq fresh free] at bounds
        rw [countedFrom_inside inside]
        obtain ⟨upper, lower, larger⟩ := bounds
        constructor <;> omega
      · rw [findInBlockRun_found inside used same] at ended
        cases ended
      · rw [findInBlockRun_used inside used other] at ended
        have bounds := ih (fresh_next_used fresh) ended
        rw [countedFrom_used inside used]
        rcases Nat.lt_or_ge maxSlots maxLen with record | short
        · rw [if_pos record] at bounds
          obtain ⟨upper, lower, larger⟩ := bounds
          constructor <;> omega
        · rw [if_neg (Nat.not_lt.2 short)] at bounds
          obtain ⟨upper, lower, larger⟩ := bounds
          constructor <;> omega

/-- Scans that end count the same slots. -/
theorem countedFrom_congr {rounds more bitPos maxLen maxSlots otherLen otherSlots : Nat}
    {slots otherResult : Nat}
    (ended : findInBlockRun blk name nameHash rounds bitPos maxLen maxSlots = some (none, slots))
    (other : findInBlockRun blk name nameHash more bitPos otherLen otherSlots =
      some (none, otherResult)) :
    countedFrom blk rounds bitPos = countedFrom blk more bitPos := by
  induction rounds generalizing more bitPos maxLen maxSlots otherLen otherSlots with
  | zero => cases ended
  | succ rounds ih =>
      cases more with
      | zero => cases other
      | succ more =>
          rcases round_cases blk name nameHash bitPos with
            past | ⟨inside, free⟩ | ⟨inside, used, same⟩ | ⟨inside, used, differs⟩
          · rw [countedFrom_past past, countedFrom_past past]
          · rw [findInBlockRun_free inside free] at ended other
            rw [countedFrom_inside inside, countedFrom_inside inside, ih ended other]
          · rw [findInBlockRun_found inside used same] at ended
            cases ended
          · rw [findInBlockRun_used inside used differs] at ended other
            rw [countedFrom_inside inside, countedFrom_inside inside, ih ended other]

/-- A scan that ends and counts nothing visits no slot that counts. -/
theorem not_counts_of_zero {rounds bitPos maxLen maxSlots slots : Nat}
    (ended : findInBlockRun blk name nameHash rounds bitPos maxLen maxSlots = some (none, slots))
    (none : countedFrom blk rounds bitPos = 0) {slot : Nat} (inside : slot < nrDentryInBlock)
    (visits : Visits blk bitPos slot) : ¬ Counts blk slot := by
  induction rounds generalizing bitPos maxLen maxSlots with
  | zero => cases ended
  | succ rounds ih =>
      cases visits with
      | here =>
          intro counts
          rw [countedFrom_inside inside, if_pos counts] at none
          omega
      | next before visits =>
          rw [countedFrom_inside before] at none
          have none_next : countedFrom blk rounds (nextSlot blk bitPos) = 0 := by omega
          rcases round_cases blk name nameHash bitPos with
            past | ⟨_, free⟩ | ⟨_, used, same⟩ | ⟨_, used, other⟩
          · omega
          · rw [findInBlockRun_free before free] at ended
            exact ih ended none_next visits
          · rw [findInBlockRun_found before used same] at ended
            cases ended
          · rw [findInBlockRun_used before used other] at ended
            exact ih ended none_next visits

theorem countedFrom_eq_zero {rounds bitPos : Nat} (none : ∀ slot < nrDentryInBlock,
    Visits blk bitPos slot → ¬ Counts blk slot) : countedFrom blk rounds bitPos = 0 := by
  induction rounds generalizing bitPos with
  | zero => rfl
  | succ rounds ih =>
      rcases Nat.lt_or_ge bitPos nrDentryInBlock with inside | past
      · rw [countedFrom_inside inside, if_neg (none bitPos inside (.here _)), Nat.zero_add]
        exact ih fun slot before visits => none slot before (.next inside visits)
      · exact countedFrom_past past

/-! ## The first run -/

namespace FreeRun

theorem prefix_of {count shorter : Nat} (run : FreeRun blk 0 count) (le : shorter ≤ count) :
    FreeRun blk 0 shorter := by
  have inside := run.inside
  exact ⟨by omega, fun slot first before => run.free slot first (by omega)⟩

theorem snoc {start count : Nat} (run : FreeRun blk start count)
    (inside : start + count < nrDentryInBlock) (free : blk.bitmap (start + count) = false) :
    FreeRun blk start (count + 1) := by
  refine ⟨inside, fun slot first before => ?_⟩
  rcases Nat.lt_or_ge slot (start + count) with old | last
  · exact run.free slot first old
  · obtain rfl : slot = start + count := by omega
    exact free

theorem nil {start : Nat} (inside : start ≤ nrDentryInBlock) : FreeRun blk start 0 :=
  ⟨inside, fun slot first before => by omega⟩

theorem single {slot : Nat} (inside : slot < nrDentryInBlock) (free : blk.bitmap slot = false) :
    FreeRun blk slot 1 :=
  (nil (Nat.le_of_lt inside)).snoc inside free

/-- The scan walks through the first run slot by slot. -/
theorem visits {count : Nat} (run : FreeRun blk 0 count) : Visits blk 0 count := by
  induction count with
  | zero => exact .here _
  | succ count ih =>
      have free : blk.bitmap count = false := run.free count (Nat.zero_le _) (by omega)
      have inside := run.inside
      have walked := (ih (run.prefix_of (Nat.le_succ _))).step (show count < nrDentryInBlock by omega)
      rw [nextSlot_free free] at walked
      exact walked

end FreeRun

theorem exists_longest (blk : DentryBlock) : ∃ longest, LongestFreeRun blk longest := by
  have nonempty : {count | ∃ start, FreeRun blk start count}.Nonempty :=
    ⟨0, 0, .nil (Nat.zero_le _)⟩
  have bounded : BddAbove {count | ∃ start, FreeRun blk start count} := by
    refine ⟨nrDentryInBlock, ?_⟩
    rintro count ⟨start, run⟩
    exact (Nat.le_add_left _ _).trans run.inside
  exact ⟨_, Nat.sSup_mem nonempty bounded, fun count run => le_csSup bounded run⟩

/-- The count at a slot before any record: the whole length of the first run, or less than the
length of a later one. -/
def InRun (blk : DentryBlock) (bitPos maxLen : Nat) : Prop :=
  maxLen = 0 ∨ (maxLen = bitPos ∧ FreeRun blk 0 bitPos) ∨
    ∃ start length, start + length = bitPos ∧ maxLen < length ∧ FreeRun blk start length

theorem InRun.free {bitPos maxLen : Nat} (counted : InRun blk bitPos maxLen)
    (inside : bitPos < nrDentryInBlock) (free : blk.bitmap bitPos = false) :
    InRun blk (bitPos + 1) (countFree blk bitPos maxLen) := by
  rw [countFree]
  split
  next first =>
    subst first
    exact .inr (.inl ⟨rfl, .single inside free⟩)
  next later =>
  obtain ⟨before, rfl⟩ := Nat.exists_eq_succ_of_ne_zero later
  rw [Nat.succ_sub_one]
  split
  next free_before =>
    have pair : FreeRun blk before 2 := (FreeRun.single (by omega) free_before).snoc inside free
    right
    rcases counted with rfl | ⟨rfl, run⟩ | ⟨start, length, at_end, fewer, run⟩
    · exact .inr ⟨before, 2, rfl, Nat.one_lt_two, pair⟩
    · refine .inl ⟨rfl, run.snoc (by simpa using inside) (by simpa using free)⟩
    · exact .inr ⟨start, length + 1, by omega, Nat.succ_lt_succ fewer,
        run.snoc (at_end ▸ inside) (at_end ▸ free)⟩
  next used_before =>
    left
    rcases counted with rfl | ⟨rfl, run⟩ | ⟨start, length, at_end, fewer, run⟩
    · rfl
    · exact absurd (run.free before (Nat.zero_le _) (by omega)) used_before
    · exact absurd (run.free before (by omega) (by omega)) used_before

/-- The scan from a slot meets one run that counts, the first run of the block. -/
structure MeetsFirst (blk : DentryBlock) (bitPos maxLen longest : Nat) : Prop where
  run : FreeRun blk 0 longest
  within : 0 < maxLen → bitPos ≤ longest
  early : ∀ slot < nrDentryInBlock, Visits blk bitPos slot → Counts blk slot → slot < longest

/-- Without a record before it, a scan whose record is both the number of slots counted and the
length of the longest run has counted in the first run only. -/
theorem meetsFirst {rounds bitPos maxLen longest : Nat} (fresh : bitPos = 0 → maxLen = 0)
    (counted : InRun blk bitPos maxLen)
    (ended : findInBlockRun blk name nameHash rounds bitPos maxLen 0 = some (none, longest))
    (total : longest = maxLen + countedFrom blk rounds bitPos)
    (greatest : ∀ start length, FreeRun blk start length → length ≤ longest)
    (pos : 0 < longest) : MeetsFirst blk bitPos maxLen longest := by
  -- A count that is the longest length is the length of the first run.
  have whole : ∀ {slot}, InRun blk slot longest → slot = longest ∧ FreeRun blk 0 longest := by
    rintro slot (zero | ⟨same, run⟩ | ⟨start, length, _, fewer, run⟩)
    · omega
    · exact ⟨same.symm, same ▸ run⟩
    · exact absurd (greatest start length run) (Nat.not_le.2 fewer)
  induction rounds generalizing bitPos maxLen with
  | zero => cases ended
  | succ rounds ih =>
      rcases round_cases blk name nameHash bitPos with
        past | ⟨inside, free⟩ | ⟨inside, used, same⟩ | ⟨inside, used, other⟩
      · rw [countedFrom_past past, Nat.add_zero] at total
        subst total
        obtain ⟨rfl, run⟩ := whole counted
        refine ⟨run, fun _ => Nat.le_refl _, fun slot before visits _ => ?_⟩
        have := visits.le
        omega
      · rw [findInBlockRun_free inside free] at ended
        rw [countedFrom_inside inside] at total
        have next := countFree_eq fresh free
        have in_run := counted.free inside free
        rw [← nextSlot_free free] at in_run
        have met := ih (fresh_next_free free) in_run ended (by omega)
        refine ⟨met.run, fun some => ?_, fun slot before visits counts => ?_⟩
        · have within := met.within (by omega)
          have step := le_nextSlot blk bitPos
          omega
        · cases visits with
          | here =>
              rw [if_pos counts] at next
              have within := met.within (by omega)
              rw [nextSlot_free free] at within
              exact within
          | next _ visits => exact met.early slot before visits counts
      · rw [findInBlockRun_found inside used same] at ended
        cases ended
      · rw [findInBlockRun_used inside used other] at ended
        rw [countedFrom_used inside used] at total
        have early_next : ∀ {slot}, slot < nrDentryInBlock → Visits blk bitPos slot →
            Counts blk slot → Visits blk (nextSlot blk bitPos) slot := by
          intro slot _ visits counts
          cases visits with
          | here => exact absurd counts (not_counts_of_used used)
          | next _ visits => exact visits
        rcases Nat.eq_zero_or_pos maxLen with rfl | some
        · simp only [Nat.lt_irrefl, if_false, Nat.max_self] at ended
          have met := ih (fun _ => rfl) (.inl rfl) ended total
          exact ⟨met.run, fun some => absurd some (Nat.lt_irrefl _), fun slot before visits counts =>
            met.early slot before (early_next before visits counts) counts⟩
        · -- The record is made here, so nothing may be counted later.
          rw [if_pos some, Nat.max_eq_left some.le] at ended
          have upper := (run_bounds (fun _ => rfl) ended).upper
          have rest : countedFrom blk rounds (nextSlot blk bitPos) = 0 := by omega
          rw [rest, Nat.add_zero] at total
          subst total
          obtain ⟨rfl, run⟩ := whole counted
          refine ⟨run, fun _ => Nat.le_refl _, fun slot before visits counts => ?_⟩
          exact absurd counts
            (not_counts_of_zero ended rest before (early_next before visits counts))

/-- A block that is measured rightly for every old value has its room at the front. -/
theorem roomFirst_of_measured (measured : ∀ maxSlots, Measured blk name nameHash maxSlots)
    (missing : ¬ NameReached blk name nameHash 0) : RoomFirst blk := by
  obtain ⟨longest, greatest⟩ := exists_longest blk
  have ended : ∀ maxSlots, ∃ rounds, findInBlockRun blk name nameHash rounds 0 0 maxSlots =
      some (none, max maxSlots longest) := by
    intro maxSlots
    obtain ⟨rounds, ⟨found, slots⟩, ended, room⟩ := measured maxSlots
    cases found with
    | some pos => exact absurd (nameReached_of_found ended) missing
    | none =>
        obtain rfl := room rfl longest greatest
        exact ⟨rounds, ended⟩
  have named : ∀ slot < nrDentryInBlock, Visits blk 0 slot → blk.bitmap slot = true →
      (blk.dentry slot).nameLen ≠ 0 := by
    intro slot inside visits used unnamed
    obtain ⟨rounds, from_start⟩ := ended 0
    obtain ⟨_, _, _, from_slot⟩ := visits.ends missing from_start
    rw [stands_still inside used unnamed] at from_slot
    cases from_slot
  have at_most : ∀ start length, FreeRun blk start length → length ≤ longest :=
    fun start length run => greatest.2 ⟨start, run⟩
  rcases Nat.eq_zero_or_pos longest with rfl | pos
  · refine ⟨named, fun slot inside _ free _ => ?_, fun start count run => ?_⟩
    · exact absurd (at_most _ _ (.single inside free)) (by decide)
    · obtain rfl : count = 0 := Nat.le_zero.1 (at_most _ _ run)
      exact .nil (Nat.zero_le _)
  · obtain ⟨rounds, from_zero⟩ := ended 0
    obtain ⟨more, from_longest⟩ := ended longest
    rw [Nat.max_eq_right (Nat.zero_le _)] at from_zero
    rw [Nat.max_self] at from_longest
    have total : longest = 0 + countedFrom blk rounds 0 := by
      have upper := (run_bounds (fun _ => rfl) from_zero).upper
      have larger := (run_bounds (fun _ => rfl) from_longest).larger
      rw [← countedFrom_congr from_zero from_longest] at larger
      omega
    have met := meetsFirst (fun _ => rfl) (.inl rfl) from_zero total at_most pos
    refine ⟨named, fun slot inside visits free free_before earlier le => ?_,
      fun start count run => met.run.prefix_of (at_most _ _ run)⟩
    have before := met.early _ inside visits ⟨free, .inr free_before⟩
    exact met.run.free earlier (Nat.zero_le _) (by omega)

/-- Through the first run the count is the number of the slot. -/
theorem run_of_first {longest rounds bitPos maxSlots slots : Nat} (run : FreeRun blk 0 longest)
    (le : bitPos ≤ longest)
    (later : ∀ slot < nrDentryInBlock, Visits blk longest slot → ¬ Counts blk slot)
    (ended : findInBlockRun blk name nameHash rounds bitPos bitPos maxSlots =
      some (none, slots)) : slots = max maxSlots longest := by
  induction rounds generalizing bitPos with
  | zero => cases ended
  | succ rounds ih =>
      rcases Nat.eq_or_lt_of_le le with rfl | before
      · obtain ⟨upper, lower, -⟩ := run_bounds id ended
        rw [countedFrom_eq_zero later] at upper
        omega
      · have inside := run.inside
        have free : blk.bitmap bitPos = false := run.free bitPos (Nat.zero_le _) (by omega)
        rw [findInBlockRun_free (by omega) free, nextSlot_free free] at ended
        have count : countFree blk bitPos bitPos = bitPos + 1 := by
          rw [countFree]
          split
          next first => rw [first]
          next not_first => rw [if_pos (run.free _ (Nat.zero_le _) (by omega))]
        rw [count] at ended
        exact ih before ended

/-- A block with its room at the front is measured rightly. -/
theorem RoomFirst.measured (room : RoomFirst blk) (name : FileName) (nameHash : BitVec 32)
    (maxSlots : Nat) : Measured blk name nameHash maxSlots := by
  obtain ⟨rounds, ⟨found, slots⟩, ended⟩ :=
    run_ends name nameHash room.named 0 maxSlots
  refine ⟨rounds, _, ended, ?_⟩
  rintro rfl longest ⟨⟨start, run⟩, at_most⟩
  have first := room.longest start longest run
  apply run_of_first first (Nat.zero_le _) _ ended
  rintro slot inside visits ⟨free, before⟩
  have le := visits.le
  cases slot with
  | zero =>
      have one : 1 ≤ longest := at_most ⟨0, .single inside free⟩
      omega
  | succ slot =>
      have free_before : blk.bitmap slot = false := by simpa using before
      have all := room.apart slot inside (first.visits.trans visits) free free_before
      have longer : slot + 2 ≤ longest := by
        refine at_most ⟨0, by omega, fun earlier _ earlier_lt => ?_⟩
        rcases Nat.lt_or_ge earlier (slot + 1) with old | last
        · exact all earlier (by omega)
        · obtain rfl : earlier = slot + 1 := by omega
          exact free
      omega

/-- `find_in_block` ends and measures the room of a block rightly, whatever `*max_slots` was,
exactly when it comes to the name or the room of the block is its first run of free slots. -/
theorem findInBlock_measured_iff (blk : DentryBlock) (name : FileName) (nameHash : BitVec 32) :
    (∀ maxSlots, Measured blk name nameHash maxSlots) ↔
      NameReached blk name nameHash 0 ∨ RoomFirst blk := by
  constructor
  · intro measured
    rcases Classical.em (NameReached blk name nameHash 0) with reached | missing
    · exact .inl reached
    · exact .inr (roomFirst_of_measured measured missing)
  · rintro (⟨slot, inside, visits, used, same⟩ | room) maxSlots
    · obtain ⟨rounds, pos, slots, found⟩ := visits.found inside used same 0 maxSlots
      exact ⟨rounds, _, found, fun missing => by cases missing⟩
    · exact room.measured name nameHash maxSlots

/-- A block with one free slot, behind an entry of one slot and before an entry that fills the
rest. -/
def oneFreeSlot : DentryBlock where
  bitmap slot := slot != 1
  dentry slot := ⟨0, 0, if slot = 0 then 8 else 8 * 212, 1⟩
  filename _ := 0x61

/-- The free slot is not counted. -/
theorem findInBlock_misses_slot :
    ¬ Measured oneFreeSlot ⟨[0x61], by decide, by decide⟩ 0 0 := by
  rintro ⟨rounds, result, ended, room⟩
  have value : findInBlock oneFreeSlot ⟨[0x61], by decide, by decide⟩ 0 0 = (none, 0) := by
    rw [findInBlock]
    decide
  rw [findInBlock_of_run ended] at value
  subst value
  have single : LongestFreeRun oneFreeSlot 1 := by
    refine ⟨⟨1, .single (by decide) rfl⟩, ?_⟩
    rintro count ⟨start, run⟩
    by_contra longer
    have first := run.free start (Nat.le_refl _) (by omega)
    have second := run.free (start + 1) (Nat.le_succ _) (by omega)
    simp only [oneFreeSlot, bne_eq_false_iff_eq] at first second
    omega
  exact absurd (room rfl 1 single) (by decide)

end StorageStack.F2fs
