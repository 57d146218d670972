import StorageStack.ShadowTable
import StorageStack.F2fs.NodeManager

/-!
# The node address table outside the cache

A NAT block has its two copies in a pair of segments.  A lookup in the journal and the current
copies, the switch of a block to its other copy and the two ways of writing an entry are those of a
table with a journal and shadow copies.
-/

namespace StorageStack
namespace F2fs

open ShadowTable

variable {sup : NatSuper} {store : NatStore}

/-- The place of one of the two copies of a NAT block. -/
def NatSuper.natAddr (sup : NatSuper) (block : Nat) (second : Bool) : Nat :=
  sup.natBlkaddr + (2 * (block / sup.sbi.blocksPerSeg) + second.toNat) * sup.sbi.blocksPerSeg +
    block % sup.sbi.blocksPerSeg

theorem currentNatAddr_eq (natBitmap : BitMap) (nid : Nat) :
    currentNatAddr sup natBitmap nid =
      sup.natAddr (nid / natEntryPerBlock) (natBitmap (nid / natEntryPerBlock)) := by
  unfold currentNatAddr NatSuper.natAddr natBlockOffset Sbi.blocksPerSeg
  dsimp only
  generalize nid / natEntryPerBlock = block
  rw [Nat.shiftLeft_eq, Nat.shiftLeft_eq, Nat.shiftRight_eq_div_pow, Nat.and_two_pow_sub_one_eq_mod]
  generalize block / 2 ^ sup.sbi.logBlocksPerSeg = segment
  cases natBitmap block with
  | false =>
      rw [if_neg (by decide), Bool.toNat_false]
      ring
  | true =>
      rw [if_pos rfl, Bool.toNat_true]
      ring

/-- No two copies share a block. -/
theorem separate_natAddr (limit : Nat) : Separate sup.natAddr limit := by
  intro left _ right _ here there equal
  have positive := sup.sbi.blocksPerSeg_pos
  unfold NatSuper.natAddr at equal
  have same : (2 * (left / sup.sbi.blocksPerSeg) + here.toNat) * sup.sbi.blocksPerSeg +
      left % sup.sbi.blocksPerSeg =
      (2 * (right / sup.sbi.blocksPerSeg) + there.toNat) * sup.sbi.blocksPerSeg +
        right % sup.sbi.blocksPerSeg := by omega
  have offset : left % sup.sbi.blocksPerSeg = right % sup.sbi.blocksPerSeg := by
    have modulo := congrArg (· % sup.sbi.blocksPerSeg) same
    simpa [Nat.mul_add_mod_self_right] using modulo
  have segment : 2 * (left / sup.sbi.blocksPerSeg) + here.toNat =
      2 * (right / sup.sbi.blocksPerSeg) + there.toNat := by
    rw [offset] at same
    exact Nat.eq_of_mul_eq_mul_right positive (Nat.add_right_cancel same)
  have hereSmall := Bool.toNat_le here
  have thereSmall := Bool.toNat_le there
  constructor
  · rw [← Nat.div_add_mod left sup.sbi.blocksPerSeg, ← Nat.div_add_mod right sup.sbi.blocksPerSeg,
      offset]
    have quotient : left / sup.sbi.blocksPerSeg = right / sup.sbi.blocksPerSeg := by omega
    rw [quotient]
  · have bit : here.toNat = there.toNat := by omega
    cases here <;> cases there <;> first | rfl | exact absurd bit (by decide)

theorem nextNatAddr_eq (block : Nat) (second : Bool) :
    nextNatAddr sup (sup.natAddr block second) = sup.natAddr block (!second) := by
  unfold nextNatAddr NatSuper.natAddr
  have positive := sup.sbi.blocksPerSeg_pos
  have small := Nat.mod_lt block positive
  generalize block % sup.sbi.blocksPerSeg = offset at small ⊢
  generalize block / sup.sbi.blocksPerSeg = pair
  have behind : sup.natBlkaddr + (2 * pair + second.toNat) * sup.sbi.blocksPerSeg + offset -
      sup.natBlkaddr = (2 * pair + second.toNat) * sup.sbi.blocksPerSeg + offset := by omega
  have segment : ((2 * pair + second.toNat) * sup.sbi.blocksPerSeg + offset) >>>
      sup.sbi.logBlocksPerSeg = 2 * pair + second.toNat := by
    rw [Nat.shiftRight_eq_div_pow]
    change _ / sup.sbi.blocksPerSeg = _
    rw [Nat.add_comm, Nat.add_mul_div_right _ _ positive, Nat.div_eq_of_lt small, Nat.zero_add]
  dsimp only
  rw [behind, segment]
  cases second with
  | false =>
      rw [Bool.toNat_false, if_neg (by omega), Bool.not_false, Bool.toNat_true]
      ring
  | true =>
      rw [Bool.toNat_true, if_pos (by omega), Bool.not_true, Bool.toNat_false]
      simp only [Nat.add_mul, Nat.one_mul, Nat.zero_mul]
      omega

/-! ## Lookups -/

/-- The node numbers in the journal slots. -/
def NatJournal.keys (journal : NatJournal) (index : Nat) : Nat := (journal.natJ index).nid

/-- The entries in the journal slots. -/
def NatJournal.values (journal : NatJournal) (index : Nat) : RawNat := (journal.natJ index).ne

/-- The entry of a node in the current copy of its block. -/
def NatStore.blockNat (sup : NatSuper) (store : NatStore) (nid : Nat) : RawNat :=
  stored natEntryPerBlock sup.natAddr store.natPages store.natBitmap nid

theorem lookupNatInCursum_eq (journal : NatJournal) (nid : Nat) :
    lookupNatInCursum journal nid = indexOf journal.keys journal.nNats nid := rfl

theorem sub_startNid (nid : Nat) : nid - startNid nid = nid % natEntryPerBlock := by
  have divided := Nat.div_add_mod nid natEntryPerBlock
  rw [startNid, Nat.mul_comm]
  omega

theorem startNid_div (nid : Nat) : startNid nid / natEntryPerBlock = nid / natEntryPerBlock :=
  Nat.mul_div_cancel _ (by decide)

theorem rawNat_eq (nid : Nat) :
    store.rawNat sup nid =
      lookup store.journal.keys store.journal.nNats store.journal.values (store.blockNat sup) nid := by
  unfold NatStore.rawNat lookup NatStore.blockNat stored
  rw [currentNatAddr_eq, sub_startNid, startNid_div, lookupNatInCursum_eq]
  rfl

/-- The slots of the journal have different nodes, and the journal does not exceed its size. -/
structure NatJournal.Sound (journal : NatJournal) : Prop where
  distinct : Distinct journal.keys journal.nNats
  bounded : journal.nNats ≤ natJournalEntries

/-- Every node in the journal has a NAT block. -/
def NatJournal.InRange (sup : NatSuper) (journal : NatJournal) : Prop :=
  ∀ index < journal.nNats, journal.keys index < sup.maxNid

/-- No node of a block is in the journal. -/
def NatJournal.Lacks (journal : NatJournal) (block : Nat) : Prop :=
  ∀ index < journal.nNats, journal.keys index / natEntryPerBlock ≠ block

theorem NatJournal.Lacks.indexOf {journal : NatJournal} {nid : Nat}
    (lacks : journal.Lacks (nid / natEntryPerBlock)) :
    ShadowTable.indexOf journal.keys journal.nNats nid = none := by
  rw [indexOf_eq_none]
  intro index inside equal
  exact lacks index inside (by rw [equal])

/-! ## Writes -/

/-- What a switch of a block to its other copy leaves as it is. -/
structure NatSwitched (sup : NatSuper) (block : Nat) (store next : NatStore) : Prop where
  journal : next.journal = store.journal
  rawNat : ∀ nid, next.rawNat sup nid = store.rawNat sup nid
  bitmap : next.natBitmap = Function.update store.natBitmap block (!store.natBitmap block)
  others : ∀ address, address ≠ sup.natAddr block (!store.natBitmap block) →
    next.natPages address = store.natPages address

theorem getNextNatPage_switched (block : Nat) :
    NatSwitched sup block store (getNextNatPage sup (block * natEntryPerBlock) store).1 ∧
      (getNextNatPage sup (block * natEntryPerBlock) store).2 =
        sup.natAddr block (!store.natBitmap block) := by
  have here : block * natEntryPerBlock / natEntryPerBlock = block := Nat.mul_div_cancel _ (by decide)
  have current : currentNatAddr sup store.natBitmap (block * natEntryPerBlock) =
      sup.natAddr block (store.natBitmap block) := by rw [currentNatAddr_eq, here]
  have pages : (getNextNatPage sup (block * natEntryPerBlock) store).1.natPages =
      Function.update store.natPages (sup.natAddr block (!store.natBitmap block))
        (store.natPages (sup.natAddr block (store.natBitmap block))) := by
    unfold getNextNatPage
    dsimp only
    rw [current, nextNatAddr_eq]
  have bitmap : (getNextNatPage sup (block * natEntryPerBlock) store).1.natBitmap =
      Function.update store.natBitmap block (!store.natBitmap block) := by
    change setToNextNat _ _ = _
    rw [setToNextNat, natBlockOffset, here]
  refine ⟨⟨rfl, ?_, bitmap, ?_⟩, ?_⟩
  · intro nid
    rw [rawNat_eq, rawNat_eq]
    apply lookup_congr
    intro _
    unfold NatStore.blockNat
    rw [pages, bitmap]
    have limit : block < max block (nid / natEntryPerBlock) + 1 := by omega
    exact stored_switch (separate_natAddr _) limit (by omega)
  · intro address other
    rw [pages, Function.update_of_ne other]
  · unfold getNextNatPage
    dsimp only
    rw [current, nextNatAddr_eq]

/-- One entry has been written. -/
structure NatWritten (sup : NatSuper) (ni : NodeInfo) (store next : NatStore) : Prop where
  sound : next.journal.Sound
  inRange : ni.nid < sup.maxNid → store.journal.InRange sup → next.journal.InRange sup
  rawNat : ∀ nid, next.rawNat sup nid =
    if nid = ni.nid then rawNatFromNodeInfo ni else store.rawNat sup nid
  bitmap : next.natBitmap = store.natBitmap

/-- A journal with a free slot, or with a slot of the node, takes the entry. -/
theorem writeRawNat_journal {ni : NodeInfo} (sound : store.journal.Sound)
    (space : store.journal.nNats < natJournalEntries) :
    ∃ next, writeRawNat .journal ni store = some next ∧ NatWritten sup ni store next ∧
      next.natPages = store.natPages ∧ next.journal.nNats ≤ store.journal.nNats + 1 ∧
      (∀ block, block ≠ ni.nid / natEntryPerBlock → store.journal.Lacks block →
        next.journal.Lacks block) := by
  have keys_update (index : Nat) (natJ : Nat → NatJournalEntry) :
      (fun other => (Function.update natJ index ⟨ni.nid, rawNatFromNodeInfo ni⟩ other).nid) =
        Function.update (fun other => (natJ other).nid) index ni.nid := by
    funext other
    by_cases same : other = index
    · rw [same, Function.update_self, Function.update_self]
    · rw [Function.update_of_ne same, Function.update_of_ne same]
  have values_update (index : Nat) (natJ : Nat → NatJournalEntry) :
      (fun other => (Function.update natJ index ⟨ni.nid, rawNatFromNodeInfo ni⟩ other).ne) =
        Function.update (fun other => (natJ other).ne) index (rawNatFromNodeInfo ni) := by
    funext other
    by_cases same : other = index
    · rw [same, Function.update_self, Function.update_self]
    · rw [Function.update_of_ne same, Function.update_of_ne same]
  cases found : lookupNatInCursum store.journal ni.nid with
  | some index =>
      obtain ⟨inside, key⟩ := indexOf_some (lookupNatInCursum_eq _ _ ▸ found)
      have written : writeRawNat .journal ni store = some { store with
          journal := { store.journal with
            natJ := Function.update store.journal.natJ index ⟨ni.nid, rawNatFromNodeInfo ni⟩ } } := by
        rw [writeRawNat, allocNatInCursum, found]
        rfl
      have keys : Function.update store.journal.keys index ni.nid = store.journal.keys := by
        rw [← key]
        exact Function.update_eq_self _ _
      have keys' := (keys_update index store.journal.natJ).trans keys
      refine ⟨_, written, ⟨⟨?_, sound.bounded⟩, ?_, ?_, rfl⟩, rfl, Nat.le_succ _, ?_⟩
      · unfold NatJournal.keys at keys' ⊢
        simp only
        rw [keys']
        exact sound.distinct
      · intro _ inRange other inside'
        unfold NatJournal.keys
        simp only
        rw [congrFun keys' other]
        exact inRange other inside'
      · intro nid
        rw [rawNat_eq, rawNat_eq]
        unfold NatJournal.keys NatJournal.values at *
        simp only
        rw [keys', values_update]
        exact lookup_overwrite _ _ found
      · intro block _ lacks other inside'
        unfold NatJournal.keys
        simp only
        rw [congrFun keys' other]
        exact lacks other inside'
  | none =>
      have absent : indexOf store.journal.keys store.journal.nNats ni.nid = none := found
      have written : writeRawNat .journal ni store = some { store with
          journal := ⟨store.journal.nNats + 1,
            Function.update store.journal.natJ store.journal.nNats
              ⟨ni.nid, rawNatFromNodeInfo ni⟩⟩ } := by
        rw [writeRawNat, allocNatInCursum, found]
        simp only [if_pos space]
        rfl
      have keys' := keys_update store.journal.nNats store.journal.natJ
      have slot (other : Nat) (inside : other < store.journal.nNats + 1) :
          (other = store.journal.nNats ∧ Function.update store.journal.keys store.journal.nNats
            ni.nid other = ni.nid) ∨
          (other < store.journal.nNats ∧ Function.update store.journal.keys store.journal.nNats
            ni.nid other = store.journal.keys other) := by
        rcases Nat.lt_succ_iff_lt_or_eq.mp inside with earlier | rfl
        · exact .inr ⟨earlier, Function.update_of_ne earlier.ne _ _⟩
        · exact .inl ⟨rfl, Function.update_self _ _ _⟩
      refine ⟨_, written, ⟨⟨?_, space⟩, ?_, ?_, rfl⟩, rfl, Nat.le_refl _, ?_⟩
      · unfold NatJournal.keys at keys' ⊢
        simp only
        rw [keys']
        exact distinct_push sound.distinct absent
      · intro small inRange other inside
        unfold NatJournal.keys
        simp only
        rw [congrFun keys' other]
        rcases slot other inside with ⟨_, equal⟩ | ⟨earlier, equal⟩
        · exact equal.trans_lt small
        · exact equal.trans_lt (inRange other earlier)
      · intro nid
        rw [rawNat_eq, rawNat_eq]
        unfold NatJournal.keys NatJournal.values at *
        simp only
        rw [keys', values_update]
        exact lookup_push _ _ sound.distinct absent
      · intro block ne lacks other inside
        unfold NatJournal.keys
        simp only
        rw [congrFun keys' other]
        rcases slot other inside with ⟨_, equal⟩ | ⟨earlier, equal⟩
        · exact fun same => ne (same.symm.trans (congrArg (· / natEntryPerBlock) equal))
        · exact fun same => lacks other earlier
            ((congrArg (· / natEntryPerBlock) equal).symm.trans same)

/-- The current copy of a block takes the entry of a node which is not in the journal. -/
theorem writeRawNat_page {ni : NodeInfo} {block : Nat} (sound : store.journal.Sound)
    (inBlock : ni.nid / natEntryPerBlock = block) (lacks : store.journal.Lacks block) :
    ∃ next, writeRawNat (.page (sup.natAddr block (store.natBitmap block))
        (block * natEntryPerBlock)) ni store = some next ∧ NatWritten sup ni store next ∧
      next.journal = store.journal ∧
      (∀ address, address ≠ sup.natAddr block (store.natBitmap block) →
        next.natPages address = store.natPages address) := by
  subst inBlock
  have offset : ni.nid - ni.nid / natEntryPerBlock * natEntryPerBlock = ni.nid % natEntryPerBlock :=
    sub_startNid ni.nid
  refine ⟨_, rfl, ⟨sound, fun _ inRange => inRange, ?_, rfl⟩, rfl, ?_⟩
  · intro nid
    rw [rawNat_eq, rawNat_eq]
    have write : NatStore.blockNat sup { store with
          natPages := Function.update store.natPages
            (sup.natAddr (ni.nid / natEntryPerBlock) (store.natBitmap (ni.nid / natEntryPerBlock)))
            (Function.update (store.natPages (sup.natAddr (ni.nid / natEntryPerBlock)
              (store.natBitmap (ni.nid / natEntryPerBlock))))
              (ni.nid - ni.nid / natEntryPerBlock * natEntryPerBlock) (rawNatFromNodeInfo ni)) } nid =
        if nid = ni.nid then rawNatFromNodeInfo ni else store.blockNat sup nid := by
      unfold NatStore.blockNat
      rw [offset]
      have limit : ni.nid / natEntryPerBlock <
        max (ni.nid / natEntryPerBlock) (nid / natEntryPerBlock) + 1 := by omega
      exact stored_write (separate_natAddr _) _ limit (by omega)
    by_cases same : nid = ni.nid
    · rw [if_pos same] at write ⊢
      unfold lookup
      rw [same] at write ⊢
      rw [lacks.indexOf]
      exact write
    · rw [if_neg same] at write ⊢
      exact lookup_congr fun _ => write
  · intro address other
    exact Function.update_of_ne other _ _

end F2fs
end StorageStack
