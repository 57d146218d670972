import StorageStack.BitMap
import StorageStack.Execution
import StorageStack.Ftl.ExtentsNode

/-!
# The map cache of the translation layer

The maps of roots and regions are kept in the slots of a cache.  A slot for a new map is found by a
clock: the hand goes round, clears the clock bits which it passes and stops at the first slot whose
bit is clear.  Until each slot has been used once the slot is taken as it is; later its map is
evicted first.
-/

namespace StorageStack
namespace Ftl

inductive RefType
  | extentsMap
  | pageMap
deriving DecidableEq, Repr

/-- An entry of `cache_idx_table`; `num` is the root or the region, in 29 bits. -/
structure CacheIdxEntry where
  num : Nat
  clockBit : Bool
  refType : RefType
  updateBit : Bool
deriving DecidableEq, Repr

structure Cache where
  cacheIdxTable : Nat → CacheIdxEntry
  cacheWp : Nat
  clockHand : Nat

/-- The clock bits of all slots. -/
def Cache.clockBits (cache : Cache) : BitMap := fun slot => (cache.cacheIdxTable slot).clockBit

def Cache.modify (cache : Cache) (slot : Nat) (change : CacheIdxEntry → CacheIdxEntry) : Cache :=
  { cache with
    cacheIdxTable := Function.update cache.cacheIdxTable slot (change (cache.cacheIdxTable slot)) }

def Cache.setClockBit (cache : Cache) (slot : Nat) (bit : Bool) : Cache :=
  cache.modify slot fun entry => { entry with clockBit := bit }

/-! ## The code -/

/-- The cache on memory which has been cleared. -/
def cacheInit : Cache where
  cacheIdxTable _ := ⟨0, false, .extentsMap, false⟩
  cacheWp := 0
  clockHand := 0

/-- `if (++idx == CACHE_IDX_SIZE) idx = 0` -/
def nextSlot (size idx : Nat) : Nat := if idx + 1 = size then 0 else idx + 1

/-- The slot behind `idx`, or the one behind that instead of `avoidNum`. -/
def nextCandidate (size avoidNum idx : Nat) : Nat :=
  if nextSlot size idx = avoidNum then nextSlot size (nextSlot size idx) else nextSlot size idx

/-- The loop of `cache_select_victim` for a number of rounds. -/
def selectLoop (size avoidNum : Nat) : Nat → Nat → Cache → Option (Nat × Cache)
  | 0, _, _ => none
  | rounds + 1, idx, cache =>
      let idx := nextCandidate size avoidNum idx
      if (cache.cacheIdxTable idx).clockBit then
        selectLoop size avoidNum rounds idx (cache.setClockBit idx false)
      else
        some (idx, { cache.setClockBit idx true with clockHand := idx })

/-- The rounds are enough for every table, see `cacheSelectVictim_spec`. -/
def cacheSelectVictim (size : Nat) (cache : Cache) (avoidNum : Nat) : Option (Nat × Cache) :=
  selectLoop size avoidNum (size + 1) cache.clockHand cache

/-- The part of `cache_evict_page` that is about the cache: without a page for the map of the slot
there is no slot. -/
def cacheEvictPage (size : Nat) (cache : Cache) (avoidNum newFreePage : Nat) :
    Option (Nat × Cache) :=
  (cacheSelectVictim size cache avoidNum).bind fun (slot, cache) =>
    if newFreePage = 0 then none
    else some (slot, cache.modify slot fun entry => { entry with updateBit := false })

def cacheUpdateInfo (cache : Cache) (cacheNum : Nat) (isUpdate : Bool) : Cache :=
  cache.modify cacheNum fun entry =>
    { entry with clockBit := true, updateBit := entry.updateBit || isUpdate }

def cacheUpdateExtentsmapInfo (cache : Cache) (slot rgNum : Nat) (isUpdate : Bool) : Cache :=
  cache.modify slot fun entry =>
    ⟨rgNum % 2 ^ 29, true, .extentsMap, entry.updateBit || isUpdate⟩

def cacheUpdatePagemapInfo (cache : Cache) (slot rNum : Nat) (isUpdate : Bool) : Cache :=
  cache.modify slot fun entry => ⟨rNum % 2 ^ 29, true, .pageMap, entry.updateBit || isUpdate⟩

/-! ## The rest of the layer -/

/-- What the functions on the maps do with the cache: they take a slot for a new map and note the
use of a slot. -/
inductive CacheCall
  | take (avoidNum newFreePage : Nat)
  | use (cacheNum : Nat) (isUpdate : Bool)
  | useExtentsmap (slot rgNum : Nat) (isUpdate : Bool)
  | usePagemap (slot rNum : Nat) (isUpdate : Bool)

/-- A slot that was taken, and whether its map was evicted first. -/
structure Selection where
  slot : Nat
  evicted : Bool
deriving DecidableEq, Repr

/-- The cache and the selections from it since the start, in order. -/
structure CacheHistory where
  cache : Cache
  selections : List Selection

def CacheHistory.start : CacheHistory := ⟨cacheInit, []⟩

/-- The code in front of each new map: a slot is taken as it is while `cache_wp` is small. -/
def takeSlot (size : Nat) (cache : Cache) (avoidNum newFreePage : Nat) :
    Option (Selection × Cache) :=
  if cache.cacheWp < size then
    (cacheSelectVictim size cache unmapped).map fun (slot, cache) =>
      (⟨slot, false⟩, { cache with cacheWp := cache.cacheWp + 1 })
  else
    (cacheEvictPage size cache avoidNum newFreePage).map fun (slot, cache) => (⟨slot, true⟩, cache)

def cacheStep (size : Nat) (history : CacheHistory) : CacheCall → Option CacheHistory
  | .take avoidNum newFreePage =>
      (takeSlot size history.cache avoidNum newFreePage).map fun (selection, cache) =>
        ⟨cache, history.selections ++ [selection]⟩
  | .use cacheNum isUpdate =>
      some { history with cache := cacheUpdateInfo history.cache cacheNum isUpdate }
  | .useExtentsmap slot rgNum isUpdate =>
      some { history with cache := cacheUpdateExtentsmapInfo history.cache slot rgNum isUpdate }
  | .usePagemap slot rNum isUpdate =>
      some { history with cache := cacheUpdatePagemapInfo history.cache slot rNum isUpdate }

/-- The slots of the maps are the slots which were selected. -/
def CacheCall.OnSelected (history : CacheHistory) : CacheCall → Prop
  | .take _ _ => True
  | .use slot _ => slot ∈ history.selections.map Selection.slot
  | .useExtentsmap slot _ _ => slot ∈ history.selections.map Selection.slot
  | .usePagemap slot _ _ => slot ∈ history.selections.map Selection.slot

/-! ## One selection -/

theorem nextSlot_lt {size idx : Nat} (idx_lt : idx < size) : nextSlot size idx < size := by
  unfold nextSlot
  split <;> omega

theorem nextCandidate_lt {size idx : Nat} (avoidNum : Nat) (idx_lt : idx < size) :
    nextCandidate size avoidNum idx < size := by
  unfold nextCandidate
  split
  · exact nextSlot_lt (nextSlot_lt idx_lt)
  · exact nextSlot_lt idx_lt

/-- With two slots the one behind the slot to avoid is another one. -/
theorem nextCandidate_ne {size : Nat} (two : 2 ≤ size) (avoidNum idx : Nat) :
    nextCandidate size avoidNum idx ≠ avoidNum := by
  unfold nextCandidate
  split_ifs with meets
  · rw [meets]
    unfold nextSlot
    split <;> omega
  · exact meets

/-- The slots on which the hand stops in its first `count` moves. -/
def passedSlots (size avoidNum idx count : Nat) : List Nat :=
  List.iterate (nextCandidate size avoidNum) (nextCandidate size avoidNum idx) count

/-- The hand has moved from `idx` to `slot`, and the clock bits of the slots which it passed are
clear. -/
structure Selected (size avoidNum idx : Nat) (before : Cache) (slot : Nat) (after : Cache) :
    Prop where
  slot_lt : slot < size
  slot_ne : slot ≠ avoidNum
  hand : after.clockHand = slot
  cacheWp : after.cacheWp = before.cacheWp
  table : ∃ count, slot = (nextCandidate size avoidNum)^[count + 1] idx ∧
    ∀ other, after.cacheIdxTable other =
      if other = slot then { before.cacheIdxTable other with clockBit := true }
      else if other ∈ passedSlots size avoidNum idx count then
        { before.cacheIdxTable other with clockBit := false }
      else before.cacheIdxTable other

theorem clockBits_setClockBit_false (cache : Cache) (slot : Nat) :
    (cache.setClockBit slot false).clockBits = cache.clockBits.clear slot := by
  funext other
  rcases eq_or_ne other slot with rfl | different
  · simp [Cache.clockBits, Cache.setClockBit, Cache.modify]
  · rw [BitMap.clear_of_ne different]
    simp [Cache.clockBits, Cache.setClockBit, Cache.modify, different]

/-- A round that does not end clears a bit, so the rounds end when there are more of them than set
bits. -/
theorem selectLoop_spec {size avoidNum idx rounds : Nat} {cache : Cache} (two : 2 ≤ size)
    (idx_lt : idx < size) (enough : cache.clockBits.popCount size < rounds) :
    ∃ slot after, selectLoop size avoidNum rounds idx cache = some (slot, after) ∧
      Selected size avoidNum idx cache slot after := by
  induction rounds generalizing idx cache with
  | zero => omega
  | succ rounds ih =>
      have next_lt := nextCandidate_lt avoidNum idx_lt
      simp only [selectLoop]
      split
      · rename_i bit
        have isSet : cache.clockBits (nextCandidate size avoidNum idx) = true := bit
        have fewer := BitMap.popCount_clear next_lt isSet
        have measure : (cache.setClockBit (nextCandidate size avoidNum idx) false).clockBits.popCount
            size < rounds := by
          rw [clockBits_setClockBit_false]
          omega
        obtain ⟨slot, after, found, selected⟩ := ih next_lt measure
        obtain ⟨count, slot_eq, table⟩ := selected.table
        refine ⟨slot, after, found, { selected with table := ⟨count + 1, slot_eq, ?_⟩ }⟩
        intro other
        rw [table other]
        simp only [passedSlots, List.iterate, List.mem_cons]
        rcases eq_or_ne other (nextCandidate size avoidNum idx) with rfl | different
        · simp [Cache.setClockBit, Cache.modify]
        · simp [Cache.setClockBit, Cache.modify, different]
      · refine ⟨_, _, rfl, ⟨next_lt, nextCandidate_ne two avoidNum idx, rfl, rfl, 0, rfl, ?_⟩⟩
        intro other
        rcases eq_or_ne other (nextCandidate size avoidNum idx) with rfl | different
        · simp [Cache.setClockBit, Cache.modify]
        · simp [Cache.setClockBit, Cache.modify, different, passedSlots]

/-- The search for a slot ends, whatever the clock bits are. -/
theorem cacheSelectVictim_spec {size : Nat} {cache : Cache} (two : 2 ≤ size)
    (hand_lt : cache.clockHand < size) (avoidNum : Nat) :
    ∃ slot after, cacheSelectVictim size cache avoidNum = some (slot, after) ∧
      Selected size avoidNum cache.clockHand cache slot after :=
  selectLoop_spec two hand_lt (Nat.lt_succ_of_le (BitMap.popCount_le _ _))

/-! ## The first selections -/

/-- The slots of the first selections: the hand starts behind slot 0. -/
def fillOrder (size : Nat) (position : Nat) : Selection := ⟨nextSlot size position, false⟩

/-- Until all slots have been used the hand has only clear bits in front of it. -/
structure Filling (size : Nat) (history : CacheHistory) : Prop where
  hand_lt : history.cache.clockHand < size
  filled_le : history.cache.cacheWp ≤ size
  selections : ∃ later : List Selection,
    history.selections = (List.range history.cache.cacheWp).map (fillOrder size) ++ later ∧
      (∀ selection ∈ later, selection.evicted = true) ∧
      (history.cache.cacheWp < size → later = [] ∧
        history.cache.clockHand = history.cache.cacheWp)
  clear : history.cache.cacheWp < size → ∀ slot < size,
    slot = 0 ∨ history.cache.cacheWp < slot → history.cache.clockBits slot = false

theorem CacheHistory.start_filling {size : Nat} (two : 2 ≤ size) :
    Filling size CacheHistory.start where
  hand_lt := by
    change 0 < size
    omega
  filled_le := Nat.zero_le _
  selections := ⟨[], rfl, by simp, fun _ => ⟨rfl, rfl⟩⟩
  clear _ _ _ _ := rfl

/-- With a clear bit behind the hand the search ends in its first round. -/
theorem cacheSelectVictim_of_clear {size : Nat} {cache : Cache} {avoidNum : Nat}
    (bit : cache.clockBits (nextCandidate size avoidNum cache.clockHand) = false) :
    cacheSelectVictim size cache avoidNum =
      some (nextCandidate size avoidNum cache.clockHand,
        { cache.setClockBit (nextCandidate size avoidNum cache.clockHand) true with
          clockHand := nextCandidate size avoidNum cache.clockHand }) := by
  have entry : (cache.cacheIdxTable
      (nextCandidate size avoidNum cache.clockHand)).clockBit = false := bit
  rw [cacheSelectVictim, selectLoop]
  exact if_neg (by simp [entry])

/-- A change to the entry of a selected slot leaves the bits of the slots which are still free. -/
theorem Filling.modify {size slot : Nat} {history : CacheHistory} (filling : Filling size history)
    (selected : slot ∈ history.selections.map Selection.slot)
    (change : CacheIdxEntry → CacheIdxEntry) :
    Filling size { history with cache := history.cache.modify slot change } where
  hand_lt := filling.hand_lt
  filled_le := filling.filled_le
  selections := filling.selections
  clear := by
    intro filled_lt other other_lt free
    change history.cache.cacheWp < size at filled_lt
    change other = 0 ∨ history.cache.cacheWp < other at free
    obtain ⟨later, order, -, only⟩ := filling.selections
    rw [order, (only filled_lt).1, List.append_nil, List.map_map] at selected
    obtain ⟨position, position_mem, slot_eq⟩ := List.mem_map.mp selected
    have position_lt := List.mem_range.mp position_mem
    have different : other ≠ slot := by
      have filled : nextSlot size position = position + 1 := if_neg (by omega)
      simp only [Function.comp_apply, fillOrder, filled] at slot_eq
      omega
    have kept := filling.clear filled_lt other other_lt free
    simpa [Cache.clockBits, Cache.modify, different] using kept

/-- A slot that has not been used is taken as long as there is one. -/
theorem Filling.fill {size : Nat} {history : CacheHistory} (filling : Filling size history)
    (size_lt : size < 2 ^ 31) (filled_lt : history.cache.cacheWp < size)
    (avoidNum newFreePage : Nat) :
    ∃ cache, takeSlot size history.cache avoidNum newFreePage =
        some (fillOrder size history.cache.cacheWp, cache) ∧
      Filling size ⟨cache, history.selections ++ [fillOrder size history.cache.cacheWp]⟩ := by
  obtain ⟨later, order, -, only⟩ := filling.selections
  obtain ⟨rfl, hand⟩ := only filled_lt
  have next_lt := nextSlot_lt filled_lt
  have next : nextCandidate size unmapped history.cache.clockHand =
      nextSlot size history.cache.cacheWp := by
    rw [hand]
    refine if_neg ?_
    rw [unmapped]
    omega
  have bit : history.cache.clockBits (nextSlot size history.cache.cacheWp) = false := by
    apply filling.clear filled_lt _ next_lt
    unfold nextSlot
    split <;> omega
  have found := cacheSelectVictim_of_clear (next.symm ▸ bit)
  rw [takeSlot, if_pos filled_lt, found, next]
  refine ⟨_, rfl, next_lt, filled_lt, ⟨[], ?_, by simp, ?_⟩, ?_⟩
  · rw [order, List.append_nil, List.append_nil, List.range_succ, List.map_append]
    rfl
  · intro more
    exact ⟨rfl, if_neg (Nat.ne_of_lt more)⟩
  · intro more slot slot_lt free
    change history.cache.cacheWp + 1 < size at more
    change slot = 0 ∨ history.cache.cacheWp + 1 < slot at free
    have taken : nextSlot size history.cache.cacheWp = history.cache.cacheWp + 1 :=
      if_neg (by omega)
    have different : slot ≠ nextSlot size history.cache.cacheWp := by omega
    have kept := filling.clear filled_lt slot slot_lt (by omega)
    simpa [Cache.clockBits, Cache.setClockBit, Cache.modify, different] using kept

theorem Filling.evict {size : Nat} {history : CacheHistory} (filling : Filling size history)
    (two : 2 ≤ size) (full : ¬ history.cache.cacheWp < size) {avoidNum newFreePage : Nat}
    {selection : Selection} {cache : Cache}
    (taken : takeSlot size history.cache avoidNum newFreePage = some (selection, cache)) :
    Filling size ⟨cache, history.selections ++ [selection]⟩ := by
  obtain ⟨slot, after, found, selected⟩ := cacheSelectVictim_spec two filling.hand_lt avoidNum
  obtain ⟨later, order, evicted, -⟩ := filling.selections
  rw [takeSlot, if_neg full, cacheEvictPage, found] at taken
  simp only [Option.bind_some] at taken
  split at taken
  · simp at taken
  · obtain ⟨rfl, rfl⟩ := Prod.mk.inj (Option.some.inj taken)
    have same : after.cacheWp = history.cache.cacheWp := selected.cacheWp
    refine ⟨?_, ?_, ⟨later ++ [⟨slot, true⟩], ?_, ?_, ?_⟩, ?_⟩
    · exact lt_of_eq_of_lt selected.hand selected.slot_lt
    · exact le_of_eq_of_le same filling.filled_le
    · dsimp only [Cache.modify]
      rw [same, order, List.append_assoc]
    · intro selection member
      rcases List.mem_append.mp member with old | new
      · exact evicted selection old
      · rw [List.mem_singleton.mp new]
    · exact fun more => absurd (lt_of_eq_of_lt same.symm more) full
    · exact fun more => absurd (lt_of_eq_of_lt same.symm more) full

/-- Every call of the layer keeps the order of the first selections. -/
theorem Filling.step {size : Nat} {history next : CacheHistory} (two : 2 ≤ size)
    (size_lt : size < 2 ^ 31) (filling : Filling size history) {call : CacheCall}
    (admitted : call.OnSelected history) (stepped : cacheStep size history call = some next) :
    Filling size next := by
  cases call with
  | take avoidNum newFreePage =>
      obtain ⟨⟨selection, cache⟩, taken, rfl⟩ := Option.map_eq_some_iff.mp stepped
      by_cases filled_lt : history.cache.cacheWp < size
      · obtain ⟨other, taken', kept⟩ :=
          filling.fill size_lt filled_lt avoidNum newFreePage
        obtain ⟨rfl, rfl⟩ := Prod.mk.inj (Option.some.inj (taken.symm.trans taken'))
        exact kept
      · exact filling.evict two filled_lt taken
  | use slot isUpdate =>
      obtain rfl := Option.some.inj stepped
      exact filling.modify admitted _
  | useExtentsmap slot rgNum isUpdate =>
      obtain rfl := Option.some.inj stepped
      exact filling.modify admitted _
  | usePagemap slot rNum isUpdate =>
      obtain rfl := Option.some.inj stepped
      exact filling.modify admitted _

theorem fillOrder_injective {size left right : Nat} (same : (fillOrder size left).slot = (fillOrder size right).slot) :
    left = right := by
  simp only [fillOrder, nextSlot] at same
  split_ifs at same <;> omega

/-- The first `size` selections are of different slots and without an eviction, and all later ones
evict the map of their slot. -/
structure FirstSelections (size : Nat) (selections : List Selection) : Prop where
  nodup : ((selections.take size).map Selection.slot).Nodup
  lt : ∀ selection ∈ selections.take size, selection.slot < size
  as_they_are : ∀ selection ∈ selections.take size, selection.evicted = false
  evicted : ∀ selection ∈ selections.drop size, selection.evicted = true

theorem Filling.take_drop {size : Nat} {history : CacheHistory} (filling : Filling size history) :
    history.selections.take size =
        (List.range history.cache.cacheWp).map (fillOrder size) ∧
      ∀ selection ∈ history.selections.drop size, selection.evicted = true := by
  obtain ⟨later, order, evicted, only⟩ := filling.selections
  have length : ((List.range history.cache.cacheWp).map (fillOrder size)).length =
      history.cache.cacheWp := by simp
  rcases Nat.lt_or_eq_of_le filling.filled_le with filled_lt | full
  · obtain ⟨rfl, -⟩ := only filled_lt
    rw [order, List.append_nil, List.take_of_length_le (by omega),
      List.drop_of_length_le (by omega)]
    simp
  · rw [order, List.take_left' (length.trans full), List.drop_left' (length.trans full)]
    exact ⟨rfl, evicted⟩

theorem Filling.firstSelections {size : Nat} {history : CacheHistory}
    (filling : Filling size history) : FirstSelections size history.selections := by
  obtain ⟨first, rest⟩ := filling.take_drop
  have filled_le := filling.filled_le
  refine ⟨?_, ?_, ?_, rest⟩
  · rw [first, List.map_map]
    exact List.nodup_range.map_on fun left _ right _ same => fillOrder_injective same
  · rw [first, List.forall_mem_map]
    intro position member
    have position_lt := List.mem_range.mp member
    exact nextSlot_lt (by omega)
  · rw [first, List.forall_mem_map]
    exact fun position _ => rfl

/-- The search for a victim ends in range and off the slot to avoid, and the slots of the first
selections of every run are different. -/
theorem cacheReplacement_safe {size : Nat} (two : 2 ≤ size) (size_lt : size < 2 ^ 31) :
    (∀ cache : Cache, cache.clockHand < size → ∀ avoidNum : Nat,
      ∃ slot after, cacheSelectVictim size cache avoidNum = some (slot, after) ∧
        Selected size avoidNum cache.clockHand cache slot after) ∧
      ∀ (calls : List CacheCall) (final : CacheHistory),
        Execution.Meets (cacheStep size) (fun history call => call.OnSelected history)
            .start calls →
          Execution.run (cacheStep size) .start calls = some final →
            FirstSelections size final.selections := by
  refine ⟨fun cache hand_lt avoidNum => cacheSelectVictim_spec two hand_lt avoidNum, ?_⟩
  intro calls final meets execution
  have filling := Execution.run_invariant
    (fun _ _ _ filling admitted stepped => Filling.step two size_lt filling admitted stepped)
    (CacheHistory.start_filling two) meets execution
  exact filling.firstSelections

theorem cacheReplacement_safe_two_slots :
    cacheSelectVictim 2 cacheInit unmapped ≠ none ∧
      ∀ final, Execution.run (cacheStep 2) .start
          [.take unmapped 900, .usePagemap 1 7 true, .take unmapped 901] = some final →
        FirstSelections 2 final.selections := by
  obtain ⟨selects, runs⟩ := @cacheReplacement_safe 2 (by decide) (by decide)
  refine ⟨?_, fun final execution => runs _ final ?_ execution⟩
  · obtain ⟨slot, after, found, -⟩ := selects cacheInit (by decide) unmapped
    rw [found]
    simp
  · refine ⟨trivial, fun next stepped => ⟨?_, fun _ _ => ⟨trivial, fun _ _ => trivial⟩⟩⟩
    have selected : next.selections = [⟨1, false⟩] := by
      rw [← Option.some.inj stepped]
      rfl
    change 1 ∈ next.selections.map Selection.slot
    rw [selected]
    exact List.mem_singleton.mpr rfl

end Ftl
end StorageStack
