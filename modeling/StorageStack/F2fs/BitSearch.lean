import StorageStack.BitMap
import Mathlib.Data.BitVec

/-!
# Searches in reversed bit maps

`f2fs_set_bit` numbers the bits of a byte from its most significant end, while a word takes its bytes
from the least significant end.  The searches for the next bit go through such a map word by word;
the first word, in which the search starts, is masked.
-/

namespace StorageStack
namespace F2fs

/-! ## Bits in bytes -/

/-- The mask of a bit in its byte. -/
def bitMask (nr : Nat) : BitVec 8 := 1#8 <<< (7 - nr % 8)

def f2fsTestBit (nr : Nat) (addr : Nat → BitVec 8) : Bool := bitMask nr &&& addr (nr / 8) != 0#8

def f2fsSetBit (nr : Nat) (addr : Nat → BitVec 8) : Nat → BitVec 8 :=
  Function.update addr (nr / 8) (addr (nr / 8) ||| bitMask nr)

def f2fsClearBit (nr : Nat) (addr : Nat → BitVec 8) : Nat → BitVec 8 :=
  Function.update addr (nr / 8) (addr (nr / 8) &&& ~~~ bitMask nr)

/-- The bit map that the bytes hold. -/
def testBits (addr : Nat → BitVec 8) : BitMap := fun nr => f2fsTestBit nr addr

theorem getLsbD_bitMask {nr place : Nat} (place_lt : place < 8) :
    (bitMask nr).getLsbD place = decide (place = 7 - nr % 8) := by
  rw [bitMask, BitVec.getLsbD_shiftLeft, BitVec.getLsbD_one]
  simp only [place_lt, decide_true, Bool.true_and]
  rcases Nat.lt_trichotomy place (7 - nr % 8) with before | same | behind
  · simp [before, before.ne]
  · simp [same]
  · have late : ¬ place < 7 - nr % 8 := by omega
    have other : place - (7 - nr % 8) ≠ 0 := by omega
    simp [late, other, behind.ne']

theorem ne_zero_iff {width : Nat} {word : BitVec width} :
    word ≠ BitVec.ofNat width 0 ↔ ∃ place, word.getLsbD place = true := by
  constructor
  · intro nonzero
    by_contra! clear
    exact nonzero (BitVec.eq_of_getLsbD_eq fun place _ => by simpa using clear place)
  · rintro ⟨place, isSet⟩ zero
    rw [zero, BitVec.getLsbD_zero] at isSet
    contradiction

theorem f2fsTestBit_eq (nr : Nat) (addr : Nat → BitVec 8) :
    f2fsTestBit nr addr = (addr (nr / 8)).getLsbD (7 - nr % 8) := by
  rw [f2fsTestBit, Bool.eq_iff_iff, bne_iff_ne, ne_zero_iff]
  simp only [BitVec.getLsbD_and, Bool.and_eq_true]
  constructor
  · rintro ⟨place, masked, isSet⟩
    have place_lt : place < 8 := BitVec.lt_of_getLsbD masked
    rw [getLsbD_bitMask place_lt, decide_eq_true_eq] at masked
    rw [← masked]
    exact isSet
  · intro isSet
    refine ⟨7 - nr % 8, ?_, isSet⟩
    rw [getLsbD_bitMask (by omega), decide_eq_true rfl]

/-- Setting a bit sets it in the map. -/
theorem testBits_f2fsSetBit (nr : Nat) (addr : Nat → BitVec 8) :
    testBits (f2fsSetBit nr addr) = (testBits addr).set nr := by
  funext other
  rw [testBits, f2fsTestBit_eq, f2fsSetBit, BitMap.set_apply, testBits, f2fsTestBit_eq]
  rcases eq_or_ne (other / 8) (nr / 8) with byte | byte
  · rw [byte, Function.update_self, BitVec.getLsbD_or, getLsbD_bitMask (by omega)]
    split
    · next same => simp [same]
    · next different =>
        have place : 7 - other % 8 ≠ 7 - nr % 8 := by omega
        simp [place]
  · rw [Function.update_of_ne byte, if_neg (by rintro rfl; exact byte rfl)]

/-! ## Bits in words -/

variable {bitsPerLong : Nat}

/-- A word of the bytes, the first byte at the least significant end. -/
def loadLong (bitsPerLong : Nat) (addr : Nat → BitVec 8) (word : Nat) : BitVec bitsPerLong :=
  BitVec.ofNat bitsPerLong <| Nat.ofBits fun place : Fin bitsPerLong =>
    (addr (word * (bitsPerLong / 8) + place / 8)).getLsbD (place % 8)

/-- Where a bit stands in its word. -/
def place (bit : Nat) : Nat := bit / 8 * 8 + (7 - bit % 8)

theorem place_add {low : Nat} (bytes : 8 ∣ low) (bit : Nat) : place (low + bit) = low + place bit := by
  simp only [place]
  omega

theorem place_lt {width bit : Nat} (bytes : 8 ∣ width) : place bit < width ↔ bit < width := by
  simp only [place]
  omega

theorem place_place (bit : Nat) : place (place bit) = bit := by
  simp only [place]
  omega

/-- The bit map in words. -/
def Holds (bitsPerLong : Nat) (read : Nat → BitVec bitsPerLong) (map : BitMap) : Prop :=
  ∀ word, ∀ bit < bitsPerLong,
    (read word).getLsbD (place bit) = map (word * bitsPerLong + bit)

theorem holds_loadLong (bytes : 8 ∣ bitsPerLong) (addr : Nat → BitVec 8) :
    Holds bitsPerLong (loadLong bitsPerLong addr) (testBits addr) := by
  intro word bit bit_lt
  have inside : place bit < bitsPerLong := (place_lt bytes).mpr bit_lt
  obtain ⟨count, rfl⟩ := bytes
  rw [testBits, f2fsTestBit_eq, loadLong, BitVec.getLsbD_ofNat, decide_eq_true inside, Bool.true_and,
    Nat.testBit_ofBits_lt _ _ inside]
  have eight : word * (8 * count) = 8 * (word * count) := by ring
  have byte : word * (8 * count / 8) + place bit / 8 = (word * (8 * count) + bit) / 8 := by
    rw [Nat.mul_div_cancel_left count (by omega), eight]
    simp only [place]
    omega
  have rest : place bit % 8 = 7 - (word * (8 * count) + bit) % 8 := by
    rw [eight]
    simp only [place]
    omega
  simp only [byte, rest]

/-! ## The first bit of a word -/

def reverseFfs (word : BitVec bitsPerLong) : Nat :=
  let (num, word) :=
    if bitsPerLong = 64 ∧ word &&& BitVec.ofNat bitsPerLong 0xffffffff = 0 then (32, word >>> 32)
    else (0, word)
  let (num, word) :=
    if word &&& BitVec.ofNat bitsPerLong 0xffff = 0 then (num + 16, word >>> 16) else (num, word)
  let (num, word) :=
    if word &&& BitVec.ofNat bitsPerLong 0xff = 0 then (num + 8, word >>> 8) else (num, word)
  let (num, word) :=
    if word &&& BitVec.ofNat bitsPerLong 0xf0 = 0 then (num + 4, word) else (num, word >>> 4)
  let (num, word) :=
    if word &&& BitVec.ofNat bitsPerLong 0xc = 0 then (num + 2, word) else (num, word >>> 2)
  if word &&& BitVec.ofNat bitsPerLong 0x2 = 0 then num + 1 else num

/-- The bits from `low` on, `count` of them, are clear. -/
theorem field_eq_zero_iff (word : BitVec bitsPerLong) (low count : Nat) {mask : Nat}
    (inside : low + count ≤ bitsPerLong) (field : mask = (2 ^ count - 1) <<< low) :
    word &&& BitVec.ofNat bitsPerLong mask = 0 ↔
      ∀ bit, low ≤ bit → bit < low + count → word.getLsbD bit = false := by
  rw [← not_iff_not]
  change _ ≠ BitVec.ofNat bitsPerLong 0 ↔ _
  rw [ne_zero_iff]
  simp only [BitVec.getLsbD_and, BitVec.getLsbD_ofNat, field, Nat.testBit_shiftLeft,
    Nat.testBit_two_pow_sub_one, Bool.and_eq_true, decide_eq_true_eq]
  push Not
  constructor
  · rintro ⟨bit, isSet, -, above, below⟩
    exact ⟨bit, above, by omega, by simpa using isSet⟩
  · rintro ⟨bit, above, below, isSet⟩
    exact ⟨bit, by simpa using isSet, by omega, above, by omega⟩

/-- The word with its low `num` bits, all clear, shifted out; a bit below `low` is set. -/
structure Shifted (word : BitVec bitsPerLong) (low : Nat) (found : Nat × BitVec bitsPerLong) :
    Prop where
  bytes : 8 ∣ found.1
  clear : ∀ bit < found.1, word.getLsbD bit = false
  shifted : ∀ bit, found.2.getLsbD bit = word.getLsbD (found.1 + bit)
  nonzero : ∃ bit < low, found.2.getLsbD bit = true

/-- One test of the low half. -/
theorem Shifted.halve {word : BitVec bitsPerLong} {found : Nat × BitVec bitsPerLong}
    (low mask : Nat) (start : Shifted word (low + low) found) (bytes : 8 ∣ low) (inside : low ≤ bitsPerLong)
    (field : mask = 2 ^ low - 1) :
    Shifted word low (if found.2 &&& BitVec.ofNat bitsPerLong mask = 0 then
      (found.1 + low, found.2 >>> low) else found) := by
  have zero := field_eq_zero_iff found.2 0 low (by omega) field
  split
  · next clear =>
      rw [zero] at clear
      refine ⟨start.bytes.add bytes, fun bit bit_lt => ?_, fun bit => ?_, ?_⟩
      · rcases Nat.lt_or_ge bit found.1 with before | behind
        · exact start.clear bit before
        · have low_clear := clear (bit - found.1) (by omega) (by dsimp only at bit_lt; omega)
          rw [start.shifted] at low_clear
          rw [← low_clear]
          congr 1
          omega
      · rw [BitVec.getLsbD_ushiftRight, start.shifted, Nat.add_assoc]
      · obtain ⟨bit, bit_lt, isSet⟩ := start.nonzero
        have high : low ≤ bit := by
          by_contra below
          rw [clear bit (by omega) (by omega)] at isSet
          contradiction
        refine ⟨bit - low, by omega, ?_⟩
        rw [BitVec.getLsbD_ushiftRight, Nat.add_sub_cancel' high]
        exact isSet
  · next occupied =>
      rw [zero] at occupied
      push Not at occupied
      obtain ⟨bit, -, bit_lt, isSet⟩ := occupied
      exact ⟨start.bytes, start.clear, start.shifted, bit, by omega, by simpa using isSet⟩

/-- The highest set bit of the low byte is among the low `width` bits of the word that is left. -/
def Leading (word : BitVec bitsPerLong) (num width : Nat) (found : Nat × BitVec bitsPerLong) : Prop :=
  ∃ base, base + width ≤ 8 ∧ base + width + found.1 = num + 8 ∧
    (∀ bit, found.2.getLsbD bit = word.getLsbD (base + bit)) ∧
    (∀ bit, base + width ≤ bit → bit < 8 → word.getLsbD bit = false) ∧
    ∃ bit < width, found.2.getLsbD bit = true

/-- One test of the high half. -/
theorem Leading.halve {word : BitVec bitsPerLong} {num : Nat} {found : Nat × BitVec bitsPerLong}
    (half mask : Nat) (start : Leading word num (half + half) found)
    (inside : half + half ≤ bitsPerLong) (field : mask = (2 ^ half - 1) <<< half) :
    Leading word num half (if found.2 &&& BitVec.ofNat bitsPerLong mask = 0 then
      (found.1 + half, found.2) else (found.1, found.2 >>> half)) := by
  have zero := field_eq_zero_iff found.2 half half inside field
  obtain ⟨base, base_le, count, shifted, clear, bit, bit_lt, isSet⟩ := start
  split
  · next high =>
      rw [zero] at high
      refine ⟨base, by omega, by dsimp only; omega, shifted, fun other above below => ?_, bit, ?_, isSet⟩
      · rcases Nat.lt_or_ge other (base + (half + half)) with before | behind
        · have high_clear := high (other - base) (by omega) (by omega)
          rw [shifted, Nat.add_sub_cancel' (by omega)] at high_clear
          exact high_clear
        · exact clear other behind below
      · by_contra above
        rw [high bit (by omega) bit_lt] at isSet
        contradiction
  · next high =>
      rw [zero] at high
      push Not at high
      obtain ⟨other, above, below, isSet'⟩ := high
      refine ⟨base + half, by omega, by dsimp only; omega, fun other => ?_, fun other above below => ?_,
        other - half, by omega, ?_⟩
      · rw [BitVec.getLsbD_ushiftRight, shifted, Nat.add_assoc]
      · exact clear other (by omega) below
      · rw [BitVec.getLsbD_ushiftRight, Nat.add_sub_cancel' above]
        simpa using isSet'

/-- The first bit of a word in the reversed order. -/
theorem reverseFfs_spec (long : bitsPerLong = 32 ∨ bitsPerLong = 64) {word : BitVec bitsPerLong}
    (nonzero : word ≠ BitVec.ofNat bitsPerLong 0) :
    reverseFfs word < bitsPerLong ∧ word.getLsbD (place (reverseFfs word)) = true ∧
      ∀ bit < reverseFfs word, word.getLsbD (place bit) = false := by
  obtain ⟨bit, isSet⟩ := ne_zero_iff.mp nonzero
  have start : Shifted word bitsPerLong (0, word) :=
    ⟨Nat.dvd_zero 8, fun _ lt => absurd lt (Nat.not_lt_zero _), fun bit => by rw [Nat.zero_add],
      bit, BitVec.lt_of_getLsbD isSet, isSet⟩
  have words : Shifted word 32
      (if bitsPerLong = 64 ∧ word &&& BitVec.ofNat bitsPerLong 0xffffffff = 0 then (32, word >>> 32)
        else (0, word)) := by
    rcases long with short | long
    · rw [if_neg (by omega)]
      exact short ▸ start
    · have whole : Shifted word (32 + 32) (0, word) := by simpa [long] using start
      have halved := whole.halve 32 0xffffffff (by decide) (by omega) rfl
      simpa [long] using halved
  have result : reverseFfs word = reverseFfs word := rfl
  conv_rhs at result => rw [reverseFfs]
  generalize (if bitsPerLong = 64 ∧ word &&& BitVec.ofNat bitsPerLong 0xffffffff = 0 then
    (32, word >>> 32) else (0, word)) = found at words result
  have halves := words.halve 16 0xffff (by decide) (by omega) rfl
  obtain ⟨num, now⟩ := found
  dsimp only at halves result
  generalize (if now &&& BitVec.ofNat bitsPerLong 0xffff = 0 then (num + 16, now >>> 16)
    else (num, now)) = found at halves result
  have bytes := halves.halve 8 0xff (by decide) (by omega) rfl
  obtain ⟨num, now⟩ := found
  dsimp only at bytes result
  generalize (if now &&& BitVec.ofNat bitsPerLong 0xff = 0 then (num + 8, now >>> 8)
    else (num, now)) = found at bytes result
  obtain ⟨num, now⟩ := found
  have eights : Leading now num 8 (num, now) :=
    ⟨0, by omega, by dsimp only; omega, fun bit => by rw [Nat.zero_add], fun _ _ _ => by omega,
      bytes.nonzero⟩
  have fours := eights.halve 4 0xf0 (by omega) rfl
  dsimp only at fours result
  generalize (if now &&& BitVec.ofNat bitsPerLong 0xf0 = 0 then (num + 4, now)
    else (num, now >>> 4)) = found at fours result
  have twos := fours.halve 2 0xc (by omega) rfl
  obtain ⟨num', now'⟩ := found
  dsimp only at twos result
  generalize (if now' &&& BitVec.ofNat bitsPerLong 0xc = 0 then (num' + 2, now')
    else (num', now' >>> 2)) = found at twos result
  have ones := twos.halve 1 0x2 (by omega) rfl
  have first : ∃ left, Leading now num 1 (reverseFfs word, left) := by
    obtain ⟨num', now'⟩ := found
    dsimp only at ones result
    rw [result]
    split at ones
    · next clear =>
        rw [if_pos clear]
        exact ⟨_, ones⟩
    · next nonzero =>
        rw [if_neg nonzero]
        exact ⟨_, ones⟩
  obtain ⟨left, base, base_le, count, shifted, clear, bit, bit_lt, isSet⟩ := first
  obtain rfl : bit = 0 := by omega
  dsimp only at count shifted isSet
  obtain ⟨more, rfl⟩ : ∃ more, num = 8 * more := bytes.bytes
  have eq : reverseFfs word = 8 * more + (7 - base) := by omega
  have place_eq : place (reverseFfs word) = 8 * more + base := by
    rw [eq, place_add (Nat.dvd_mul_right 8 more), place]
    omega
  have isSet' : word.getLsbD (8 * more + base) = true := by
    rw [shifted, Nat.add_zero, bytes.shifted] at isSet
    exact isSet
  have base_lt := BitVec.lt_of_getLsbD isSet'
  refine ⟨?_, by rw [place_eq]; exact isSet', fun bit bit_lt => ?_⟩
  · rw [← place_lt (by omega), place_eq]
    exact base_lt
  · rcases Nat.lt_or_ge bit (8 * more) with before | behind
    · refine bytes.clear _ ?_
      exact (place_lt (Nat.dvd_mul_right 8 more)).mpr before
    · have clear' := clear (place (bit - 8 * more)) (by simp only [place]; omega)
        (by simp only [place]; omega)
      rw [bytes.shifted, ← place_add (Nat.dvd_mul_right 8 more), Nat.add_sub_cancel' behind] at clear'
      exact clear'

/-! ## The searches -/

/-- `(unsigned char)(0xff << rest) >> rest`. -/
def subByte (rest : Nat) : BitVec 8 := (0xff#8 <<< rest) >>> rest

/-- The mask of `__find_rev_next_bit` for the word in which the search starts. -/
def nextMask (offset : Nat) : BitVec bitsPerLong :=
  let quot := (offset >>> 3) <<< 3
  BitVec.allOnes bitsPerLong <<< quot &&& (subByte (offset % 8)).setWidth bitsPerLong <<< quot

/-- The mask of `__find_rev_next_zero_bit` for the word in which the search starts. -/
def nextZeroMask (offset : Nat) : BitVec bitsPerLong :=
  let quot := (offset >>> 3) <<< 3
  ~~~ (BitVec.allOnes bitsPerLong <<< quot) +
    (~~~ subByte (offset % 8)).setWidth bitsPerLong <<< quot

/-- The loop from the label `aligned` on, over `words` words; `hit` has a set bit where the wanted
bits are, and `foundFirst` looks at the last `rest` bits. -/
def findAligned (read : Nat → BitVec bitsPerLong) (hit : BitVec bitsPerLong → BitVec bitsPerLong)
    (foundFirst : BitVec bitsPerLong → Nat → Nat → Nat) (rest : Nat) : (words p result : Nat) → Nat
  | 0, p, result => if rest = 0 then result else foundFirst (read p) rest result
  | words + 1, p, result =>
      if hit (read p) = BitVec.ofNat bitsPerLong 0 then
        findAligned read hit foundFirst rest words (p + 1) (result + bitsPerLong)
      else result + reverseFfs (hit (read p))

/-- The label `found_first` of `__find_rev_next_bit`. -/
def foundFirst (tmp : BitVec bitsPerLong) (size result : Nat) : Nat :=
  let tmp := tmp &&& BitVec.allOnes bitsPerLong >>> (bitsPerLong - size)
  if tmp = BitVec.ofNat bitsPerLong 0 then result + size else result + reverseFfs tmp

def findRevNextBit (addr : Nat → BitVec bitsPerLong) (size offset : Nat) : Nat :=
  if size ≤ offset then size
  else
    let p := offset / bitsPerLong
    let result := p * bitsPerLong
    let size := size - result
    let offset := offset % bitsPerLong
    if offset = 0 then
      findAligned addr id foundFirst (size % bitsPerLong) (size / bitsPerLong) p result
    else
      let tmp := addr p &&& nextMask offset
      if size < bitsPerLong then foundFirst tmp size result
      else if tmp ≠ BitVec.ofNat bitsPerLong 0 then result + reverseFfs tmp
      else
        let size := size - bitsPerLong
        findAligned addr id foundFirst (size % bitsPerLong) (size / bitsPerLong) (p + 1)
          (result + bitsPerLong)

/-- `__reverse_ffz`. -/
def reverseFfz (word : BitVec bitsPerLong) : Nat := reverseFfs (~~~ word)

/-- The label `found_first` of `__find_rev_next_zero_bit`. -/
def foundFirstZero (tmp : BitVec bitsPerLong) (size result : Nat) : Nat :=
  let tmp := tmp ||| BitVec.allOnes bitsPerLong <<< size
  if tmp = BitVec.allOnes bitsPerLong then result + size else result + reverseFfz tmp

def findRevNextZeroBit (addr : Nat → BitVec bitsPerLong) (size offset : Nat) : Nat :=
  if size ≤ offset then size
  else
    let p := offset / bitsPerLong
    let result := p * bitsPerLong
    let size := size - result
    let offset := offset % bitsPerLong
    if offset = 0 then
      findAligned addr (~~~ ·) foundFirstZero (size % bitsPerLong) (size / bitsPerLong) p result
    else
      let tmp := addr p ||| nextZeroMask offset
      if size < bitsPerLong then foundFirstZero tmp size result
      else if ~~~ tmp ≠ BitVec.ofNat bitsPerLong 0 then result + reverseFfz tmp
      else
        let size := size - bitsPerLong
        findAligned addr (~~~ ·) foundFirstZero (size % bitsPerLong) (size / bitsPerLong) (p + 1)
          (result + bitsPerLong)

theorem getLsbD_subByte {rest bit : Nat} (bit_lt : bit < 8) :
    (subByte rest).getLsbD bit = decide (rest + bit < 8) := by
  have ones : (0xff#8) = BitVec.allOnes 8 := rfl
  rw [subByte, BitVec.getLsbD_ushiftRight, BitVec.getLsbD_shiftLeft, ones, BitVec.getLsbD_allOnes,
    Nat.add_sub_cancel_left]
  simp [bit_lt]

/-- The bits of a mask of one byte, shifted to its place in the word. -/
theorem getLsbD_byte (byte : BitVec 8) {quot bit : Nat} (bytes : 8 ∣ quot) (bit_lt : bit < bitsPerLong) :
    (byte.setWidth bitsPerLong <<< quot).getLsbD bit =
      (decide (bit / 8 = quot / 8) && byte.getLsbD (bit % 8)) := by
  rw [BitVec.getLsbD_shiftLeft, BitVec.getLsbD_setWidth]
  have inside : bit - quot < bitsPerLong := by omega
  simp only [bit_lt, inside, decide_true, Bool.true_and]
  rcases Nat.lt_trichotomy (bit / 8) (quot / 8) with before | same | behind
  · have low : bit < quot := by omega
    simp [before.ne, low]
  · have high : ¬ bit < quot := by omega
    have place : bit - quot = bit % 8 := by omega
    simp [same, high, place]
  · have high : 8 ≤ bit - quot := by omega
    rw [BitVec.getLsbD_of_ge byte _ high]
    simp [behind.ne']

theorem quot_eq (offset : Nat) : (offset >>> 3) <<< 3 = offset / 8 * 8 := by
  rw [Nat.shiftRight_eq_div_pow, Nat.shiftLeft_eq]

theorem getLsbD_ones {quot bit : Nat} (bit_lt : bit < bitsPerLong) :
    (BitVec.allOnes bitsPerLong <<< quot).getLsbD bit = decide (quot ≤ bit) := by
  have inside : bit - quot < bitsPerLong := by omega
  rw [BitVec.getLsbD_shiftLeft, BitVec.getLsbD_allOnes, Bool.eq_iff_iff]
  simp [bit_lt, inside]

/-- The mask keeps the rest of the byte in which the search starts, and nothing of the bytes behind
it. -/
theorem getLsbD_nextMask (bytes : 8 ∣ bitsPerLong) {offset bit : Nat} (bit_lt : bit < bitsPerLong) :
    (nextMask offset : BitVec bitsPerLong).getLsbD (place bit) =
      decide (offset ≤ bit ∧ bit / 8 = offset / 8) := by
  have inside : place bit < bitsPerLong := (place_lt bytes).mpr bit_lt
  rw [nextMask, quot_eq, BitVec.getLsbD_and, getLsbD_byte _ (Nat.dvd_mul_left 8 _) inside,
    getLsbD_ones inside, getLsbD_subByte (Nat.mod_lt _ (by omega)), Bool.eq_iff_iff]
  simp only [Bool.and_eq_true, decide_eq_true_eq]
  simp only [place]
  omega

/-- The mask sets the bits before the start. -/
theorem getLsbD_nextZeroMask (bytes : 8 ∣ bitsPerLong) {offset bit : Nat}
    (bit_lt : bit < bitsPerLong) :
    (nextZeroMask offset : BitVec bitsPerLong).getLsbD (place bit) = decide (bit < offset) := by
  have inside : place bit < bitsPerLong := (place_lt bytes).mpr bit_lt
  have apart : ~~~ (BitVec.allOnes bitsPerLong <<< (offset / 8 * 8)) &&&
      (~~~ subByte (offset % 8)).setWidth bitsPerLong <<< (offset / 8 * 8) = BitVec.ofNat bitsPerLong 0 := by
    refine BitVec.eq_of_getLsbD_eq fun other other_lt => ?_
    rw [BitVec.getLsbD_and, getLsbD_byte _ (Nat.dvd_mul_left 8 _) other_lt, BitVec.getLsbD_not,
      getLsbD_ones other_lt, BitVec.getLsbD_zero, Bool.eq_false_iff]
    simp only [ne_eq, Bool.and_eq_true, Bool.not_eq_true', decide_eq_true_eq, decide_eq_false_iff_not]
    omega
  have small : place bit % 8 < 8 := Nat.mod_lt _ (by omega)
  rw [nextZeroMask, quot_eq, BitVec.add_eq_or_of_and_eq_zero _ _ apart, BitVec.getLsbD_or,
    getLsbD_byte _ (Nat.dvd_mul_left 8 _) inside, BitVec.getLsbD_not, getLsbD_ones inside,
    BitVec.getLsbD_not, getLsbD_subByte small, Bool.eq_iff_iff]
  simp only [inside, small, decide_true, Bool.true_and, Bool.or_eq_true, Bool.and_eq_true,
    Bool.not_eq_true', decide_eq_false_iff_not, decide_eq_true_eq]
  simp only [place]
  omega

/-! ## What the searches find -/

/-- The first bit from `offset` on that has the value, or the size if there is none. -/
def NextBit (map : BitMap) (value : Bool) (size offset found : Nat) : Prop :=
  offset ≤ found ∧ found < size ∧ map found = value ∧
      (∀ bit, offset ≤ bit → bit < found → map bit ≠ value) ∨
    found = size ∧ ∀ bit, offset ≤ bit → bit < size → map bit ≠ value

/-- The bits that a search skips at first. -/
theorem NextBit.of_skipped {map : BitMap} {value : Bool} {size offset later found : Nat}
    (next : NextBit map value size later found) (ordered : offset ≤ later)
    (skipped : ∀ bit, offset ≤ bit → bit < later → map bit ≠ value) :
    NextBit map value size offset found := by
  have all : ∀ {limit}, (∀ bit, later ≤ bit → bit < limit → map bit ≠ value) →
      ∀ bit, offset ≤ bit → bit < limit → map bit ≠ value := by
    intro limit rest bit above below
    rcases Nat.lt_or_ge bit later with before | behind
    · exact skipped bit above before
    · exact rest bit behind below
  rcases next with ⟨above, below, isValue, rest⟩ | ⟨last, rest⟩
  · exact .inl ⟨by omega, below, isValue, all rest⟩
  · exact .inr ⟨last, all rest⟩

/-- The words of the map with the wanted bits set, `hit` applied. -/
def Hits (read : Nat → BitVec bitsPerLong) (hit : BitVec bitsPerLong → BitVec bitsPerLong)
    (map : BitMap) (value : Bool) : Prop :=
  ∀ word, ∀ bit < bitsPerLong, (hit (read word)).getLsbD (place bit) = true ↔
    map (word * bitsPerLong + bit) = value

/-- The first bit of a word that has wanted bits from `offset` on, and with one of them all before
it. -/
theorem nextBit_of_word (long : bitsPerLong = 32 ∨ bitsPerLong = 64) {map : BitMap} {value : Bool}
    {size p offset : Nat} {word : BitVec bitsPerLong} (nonzero : word ≠ BitVec.ofNat bitsPerLong 0)
    (inside : (p + 1) * bitsPerLong ≤ size) (start : p * bitsPerLong ≤ offset)
    (wanted : ∀ bit < bitsPerLong, word.getLsbD (place bit) = true →
      offset ≤ p * bitsPerLong + bit ∧ map (p * bitsPerLong + bit) = value)
    (before : ∀ bit last, bit ≤ last → last < bitsPerLong → word.getLsbD (place last) = true →
      offset ≤ p * bitsPerLong + bit → map (p * bitsPerLong + bit) = value →
        word.getLsbD (place bit) = true) :
    NextBit map value size offset (p * bitsPerLong + reverseFfs word) := by
  obtain ⟨found_lt, isSet, clear⟩ := reverseFfs_spec long nonzero
  obtain ⟨above, isValue⟩ := wanted _ found_lt isSet
  rw [Nat.add_one_mul] at inside
  refine .inl ⟨above, by omega, isValue, fun bit from_offset below is_value => ?_⟩
  have clear' := clear (bit - p * bitsPerLong) (by omega)
  have whole : p * bitsPerLong + (bit - p * bitsPerLong) = bit := by omega
  have isSet' := before (bit - p * bitsPerLong) _ (by omega) found_lt isSet (by omega)
    (by rw [whole]; exact is_value)
  rw [clear'] at isSet'
  contradiction

/-- The loop over whole words. -/
theorem findAligned_spec (long : bitsPerLong = 32 ∨ bitsPerLong = 64) {map : BitMap} {value : Bool}
    {read : Nat → BitVec bitsPerLong} {hit : BitVec bitsPerLong → BitVec bitsPerLong}
    (hits : Hits read hit map value) (foundFirst : BitVec bitsPerLong → Nat → Nat → Nat)
    (words p : Nat) :
    NextBit map value ((p + words) * bitsPerLong) (p * bitsPerLong)
      (findAligned read hit foundFirst 0 words p (p * bitsPerLong)) := by
  induction words generalizing p with
  | zero => exact .inr ⟨rfl, fun bit above below => absurd below (Nat.not_lt.mpr above)⟩
  | succ words ih =>
      rw [findAligned]
      split
      · next zero =>
          have rest := ih (p + 1)
          rw [show p + 1 + words = p + (words + 1) by omega, Nat.add_one_mul] at rest
          refine rest.of_skipped (by omega) fun bit above below is_value => ?_
          have isSet := (hits p (bit - p * bitsPerLong) (by omega)).mpr
            (by rw [Nat.add_sub_cancel' above]; exact is_value)
          rw [zero, BitVec.getLsbD_zero] at isSet
          contradiction
      · next nonzero =>
          refine nextBit_of_word long nonzero (Nat.mul_le_mul_right _ (by omega)) le_rfl ?_ ?_
          · intro bit bit_lt isSet
            exact ⟨by omega, (hits p bit bit_lt).mp isSet⟩
          · intro bit last ordered last_lt _ _ is_value
            exact (hits p bit (by omega)).mpr is_value

/-- The search from the label `aligned` on with the sizes of the source. -/
theorem findAligned_of_dvd (long : bitsPerLong = 32 ∨ bitsPerLong = 64) {map : BitMap} {value : Bool}
    {read : Nat → BitVec bitsPerLong} {hit : BitVec bitsPerLong → BitVec bitsPerLong}
    (hits : Hits read hit map value) (foundFirst : BitVec bitsPerLong → Nat → Nat → Nat)
    {size p : Nat} (whole : bitsPerLong ∣ size) (inside : p * bitsPerLong ≤ size) :
    NextBit map value size (p * bitsPerLong)
      (findAligned read hit foundFirst ((size - p * bitsPerLong) % bitsPerLong)
        ((size - p * bitsPerLong) / bitsPerLong) p (p * bitsPerLong)) := by
  obtain ⟨words, rfl⟩ := whole
  have positive : 0 < bitsPerLong := by omega
  have left : bitsPerLong * words - p * bitsPerLong = bitsPerLong * (words - p) := by
    rw [Nat.mul_comm p, Nat.mul_sub]
  have p_le : p ≤ words := by
    rw [Nat.mul_comm bitsPerLong] at inside
    exact Nat.le_of_mul_le_mul_right inside positive
  have spec := findAligned_spec long hits foundFirst (words - p) p
  rw [Nat.add_sub_cancel' p_le, Nat.mul_comm words] at spec
  rw [left, Nat.mul_mod_right, Nat.mul_div_cancel_left _ positive]
  exact spec

/-- The word in which an offset below the size lies is below the size. -/
theorem word_le {size offset : Nat} (whole : bitsPerLong ∣ size)
    (offset_lt : offset < size) : (offset / bitsPerLong + 1) * bitsPerLong ≤ size := by
  obtain ⟨words, rfl⟩ := whole
  have word_lt : offset / bitsPerLong < words := Nat.div_lt_of_lt_mul offset_lt
  rw [Nat.mul_comm bitsPerLong]
  exact Nat.mul_le_mul_right _ word_lt

/-- The search for a clear bit. -/
theorem findRevNextZeroBit_spec (long : bitsPerLong = 32 ∨ bitsPerLong = 64) {map : BitMap}
    {addr : Nat → BitVec bitsPerLong} (holds : Holds bitsPerLong addr map) {size offset : Nat}
    (whole : bitsPerLong ∣ size) :
    NextBit map false size offset (findRevNextZeroBit addr size offset) := by
  have bytes : 8 ∣ bitsPerLong := by omega
  have positive : 0 < bitsPerLong := by omega
  have hits : Hits addr (~~~ ·) map false := by
    intro word bit bit_lt
    rw [BitVec.getLsbD_not, holds word bit bit_lt, decide_eq_true ((place_lt bytes).mpr bit_lt)]
    simp
  rw [findRevNextZeroBit]
  split
  · exact .inr ⟨rfl, fun bit above below => by omega⟩
  · next offset_lt =>
      have inside := word_le whole (Nat.not_le.mp offset_lt)
      have split_offset := Nat.div_add_mod' offset bitsPerLong
      have mod_lt := Nat.mod_lt offset positive
      have next_word := Nat.add_one_mul (offset / bitsPerLong) bitsPerLong
      dsimp only
      split
      · next aligned =>
          rw [aligned, Nat.add_zero] at split_offset
          have spec := findAligned_of_dvd long hits foundFirstZero whole (by omega :
            offset / bitsPerLong * bitsPerLong ≤ size)
          rw [split_offset] at spec ⊢
          exact spec
      · rw [if_neg (by omega)]
        have masked : ∀ bit < bitsPerLong, (~~~ (addr (offset / bitsPerLong) |||
            nextZeroMask (offset % bitsPerLong))).getLsbD (place bit) = true ↔
              offset ≤ offset / bitsPerLong * bitsPerLong + bit ∧
                map (offset / bitsPerLong * bitsPerLong + bit) = false := by
          intro bit bit_lt
          rw [BitVec.getLsbD_not, BitVec.getLsbD_or, getLsbD_nextZeroMask bytes bit_lt,
            holds _ bit bit_lt, decide_eq_true ((place_lt bytes).mpr bit_lt)]
          simp only [Bool.true_and, Bool.not_eq_true', Bool.or_eq_false_iff, decide_eq_false_iff_not]
          rw [and_comm]
          refine and_congr_left fun _ => ?_
          omega
        split
        · next nonzero =>
            refine nextBit_of_word long nonzero inside (by omega)
              (fun bit bit_lt isSet => (masked bit bit_lt).mp isSet) ?_
            intro bit last ordered last_lt _ from_offset is_value
            exact (masked bit (by omega)).mpr ⟨from_offset, is_value⟩
        · next zero =>
            have spec := findAligned_of_dvd long hits foundFirstZero whole inside
            rw [next_word, ← Nat.sub_sub] at spec
            refine spec.of_skipped (by omega) fun bit above below is_value => ?_
            have whole_bit : offset / bitsPerLong * bitsPerLong +
                (bit - offset / bitsPerLong * bitsPerLong) = bit := by omega
            have isSet := (masked (bit - offset / bitsPerLong * bitsPerLong) (by omega)).mpr
              (by rw [whole_bit]; exact ⟨above, is_value⟩)
            rw [not_not.mp zero, BitVec.getLsbD_zero] at isSet
            contradiction

/-- Where the search for a set bit is right: it starts with a word, or one of the bits up to the end
of its byte is set, or no bit behind this byte in the same word is. -/
def ByteDecides (bitsPerLong : Nat) (map : BitMap) (size offset : Nat) : Prop :=
  offset < size → offset % bitsPerLong ≠ 0 →
    (∃ bit, offset ≤ bit ∧ bit / 8 = offset / 8 ∧ map bit = true) ∨
      ∀ bit, offset / 8 < bit / 8 → bit / bitsPerLong = offset / bitsPerLong → map bit = false

/-- The search for a set bit. -/
theorem findRevNextBit_iff (long : bitsPerLong = 32 ∨ bitsPerLong = 64) {map : BitMap}
    {addr : Nat → BitVec bitsPerLong} (holds : Holds bitsPerLong addr map) {size offset : Nat}
    (whole : bitsPerLong ∣ size) :
    NextBit map true size offset (findRevNextBit addr size offset) ↔
      ByteDecides bitsPerLong map size offset := by
  have bytes : 8 ∣ bitsPerLong := by omega
  have positive : 0 < bitsPerLong := by omega
  have hits : Hits addr id map true := by
    intro word bit bit_lt
    rw [id, holds word bit bit_lt]
  rw [findRevNextBit]
  split
  · next outside =>
      exact iff_of_true (.inr ⟨rfl, fun bit above below => by omega⟩)
        (fun offset_lt => absurd offset_lt (Nat.not_lt.mpr outside))
  · next offset_lt =>
      have inside := word_le whole (Nat.not_le.mp offset_lt)
      have split_offset := Nat.div_add_mod' offset bitsPerLong
      have mod_lt := Nat.mod_lt offset positive
      have next_word := Nat.add_one_mul (offset / bitsPerLong) bitsPerLong
      dsimp only
      split
      · next aligned =>
          rw [aligned, Nat.add_zero] at split_offset
          have spec := findAligned_of_dvd long hits foundFirst whole (by omega :
            offset / bitsPerLong * bitsPerLong ≤ size)
          rw [split_offset] at spec ⊢
          exact iff_of_true spec fun _ unaligned => absurd aligned unaligned
      · next unaligned =>
          have small : ¬ size - offset / bitsPerLong * bitsPerLong < bitsPerLong := by omega
          rw [if_neg small]
          obtain ⟨count, count_eq⟩ := bytes
          obtain ⟨before, before_eq⟩ : 8 ∣ offset / bitsPerLong * bitsPerLong :=
            (show 8 ∣ bitsPerLong from ⟨count, count_eq⟩).mul_left _
          have byte_eq : ∀ bit, (offset / bitsPerLong * bitsPerLong + bit) / 8 = offset / 8 ↔
              bit / 8 = offset % bitsPerLong / 8 := by omega
          have masked : ∀ bit < bitsPerLong, (addr (offset / bitsPerLong) &&&
              nextMask (offset % bitsPerLong)).getLsbD (place bit) = true ↔
                map (offset / bitsPerLong * bitsPerLong + bit) = true ∧
                  offset ≤ offset / bitsPerLong * bitsPerLong + bit ∧
                    (offset / bitsPerLong * bitsPerLong + bit) / 8 = offset / 8 := by
            intro bit bit_lt
            rw [BitVec.getLsbD_and, getLsbD_nextMask ⟨count, count_eq⟩ bit_lt, holds _ bit bit_lt,
              Bool.and_eq_true, decide_eq_true_eq, byte_eq]
            refine and_congr_right fun _ => and_congr_left fun _ => ?_
            omega
          split
          · next nonzero =>
              refine iff_of_true ?_ fun _ _ => .inl ?_
              · refine nextBit_of_word long nonzero inside (by omega) ?_ ?_
                · intro bit bit_lt isSet
                  obtain ⟨isSet', above, -⟩ := (masked bit bit_lt).mp isSet
                  exact ⟨above, isSet'⟩
                · intro bit last ordered last_lt last_set from_offset isSet
                  obtain ⟨-, -, byte⟩ := (masked last last_lt).mp last_set
                  exact (masked bit (by omega)).mpr ⟨isSet, from_offset, by omega⟩
              · obtain ⟨at_place, isSet⟩ := ne_zero_iff.mp nonzero
                have at_lt := BitVec.lt_of_getLsbD isSet
                rw [← place_place at_place] at isSet
                obtain ⟨isSet', above, byte⟩ := (masked _ ((place_lt ⟨count, count_eq⟩).mpr at_lt)).mp isSet
                exact ⟨_, above, byte, isSet'⟩
          · next zero =>
              have clear : ∀ bit, offset ≤ bit → bit / 8 = offset / 8 → map bit ≠ true := by
                intro bit above byte isSet
                have whole_bit : offset / bitsPerLong * bitsPerLong +
                    (bit - offset / bitsPerLong * bitsPerLong) = bit := by omega
                have isSet' := (masked (bit - offset / bitsPerLong * bitsPerLong) (by omega)).mpr
                  (by rw [whole_bit]; exact ⟨isSet, above, byte⟩)
                rw [not_not.mp zero, BitVec.getLsbD_zero] at isSet'
                contradiction
              have spec := findAligned_of_dvd long hits foundFirst whole inside
              rw [next_word, ← Nat.sub_sub] at spec
              constructor
              · intro next _ _
                refine .inr fun bit behind word => Bool.eq_false_iff.mpr fun isSet => ?_
                have bit_eq := Nat.div_add_mod' bit bitsPerLong
                have bit_mod := Nat.mod_lt bit positive
                rw [word] at bit_eq
                rcases spec with ⟨found_le, -⟩ | ⟨found_eq, -⟩
                · rcases next with ⟨-, -, -, unset⟩ | ⟨-, unset⟩
                  · exact unset bit (by omega) (by omega) isSet
                  · exact unset bit (by omega) (by omega) isSet
                · rcases next with ⟨-, -, -, unset⟩ | ⟨-, unset⟩
                  · exact unset bit (by omega) (by omega) isSet
                  · exact unset bit (by omega) (by omega) isSet
              · intro decides
                refine spec.of_skipped (by omega) fun bit above below isSet => ?_
                rcases decides (by omega) unaligned with ⟨other, above', byte, isSet'⟩ | unset
                · exact clear other above' byte isSet'
                · rcases eq_or_ne (bit / 8) (offset / 8) with byte | byte
                  · exact clear bit above byte isSet
                  · have word : bit / bitsPerLong = offset / bitsPerLong :=
                      Nat.div_eq_of_lt_le (by omega) (by omega)
                    rw [unset bit (by omega) word] at isSet
                    contradiction

/-- Both searches find the next bit exactly if the byte of the start decides. -/
theorem reversedSearches_iff (long : bitsPerLong = 32 ∨ bitsPerLong = 64) (addr : Nat → BitVec 8)
    {size : Nat} (whole : bitsPerLong ∣ size) (offset : Nat) :
    (NextBit (testBits addr) true size offset
        (findRevNextBit (loadLong bitsPerLong addr) size offset) ∧
      NextBit (testBits addr) false size offset
        (findRevNextZeroBit (loadLong bitsPerLong addr) size offset)) ↔
      ByteDecides bitsPerLong (testBits addr) size offset := by
  have holds : Holds bitsPerLong (loadLong bitsPerLong addr) (testBits addr) :=
    holds_loadLong (by omega) addr
  rw [findRevNextBit_iff long holds whole]
  exact and_iff_left (findRevNextZeroBit_spec long holds whole)

theorem testBits_single (nr bit : Nat) :
    testBits (f2fsSetBit nr fun _ => 0#8) bit = decide (bit = nr) := by
  have clear : testBits (fun _ => 0#8) bit = false := by
    rw [testBits, f2fsTestBit_eq, BitVec.getLsbD_zero]
  rw [testBits_f2fsSetBit, BitMap.set_apply, clear]
  split <;> simp [*]

/-- A map with bit 9 only, searched from there. -/
theorem reversedSearches_iff_example :
    NextBit (testBits (f2fsSetBit 9 fun _ => 0#8)) true 128 9
        (findRevNextBit (loadLong 64 (f2fsSetBit 9 fun _ => 0#8)) 128 9) ∧
      NextBit (testBits (f2fsSetBit 9 fun _ => 0#8)) false 128 9
        (findRevNextZeroBit (loadLong 64 (f2fsSetBit 9 fun _ => 0#8)) 128 9) :=
  (reversedSearches_iff (.inr rfl) _ (by decide) 9).mpr fun _ _ =>
    .inl ⟨9, le_rfl, rfl, by rw [testBits_single]; rfl⟩

/-- The search from bit 1 does not find bit 8, the first of the next byte. -/
theorem not_nextBit_of_next_byte :
    ¬ NextBit (testBits (f2fsSetBit 8 fun _ => 0#8)) true 64 1
      (findRevNextBit (loadLong 64 (f2fsSetBit 8 fun _ => 0#8)) 64 1) := by
  rw [findRevNextBit_iff (.inr rfl) (holds_loadLong (by decide) _) (by decide)]
  intro decides
  rcases decides (by decide) (by decide) with ⟨bit, -, byte, isSet⟩ | unset
  · rw [testBits_single, decide_eq_true_eq] at isSet
    omega
  · have clear := unset 8 (by decide) (by decide)
    rw [testBits_single] at clear
    contradiction

/-! ## Runs of set bits -/

/-- The bytes that hold a bit map. -/
def bytesOf (map : BitMap) (byte : Nat) : BitVec 8 :=
  BitVec.ofNat 8 <| Nat.ofBits fun bit : Fin 8 => map (byte * 8 + (7 - bit))

theorem testBits_bytesOf (map : BitMap) : testBits (bytesOf map) = map := by
  funext nr
  have inside : 7 - nr % 8 < 8 := by omega
  have whole : nr / 8 * 8 + (7 - (7 - nr % 8)) = nr := by omega
  rw [testBits, f2fsTestBit_eq, bytesOf, BitVec.getLsbD_ofNat, decide_eq_true inside, Bool.true_and,
    Nat.testBit_ofBits_lt _ _ inside]
  simp only [whole]

/-- `__find_rev_next_bit` on 64-bit words. -/
def revNextBit (map : BitMap) (size offset : Nat) : Nat :=
  findRevNextBit (loadLong 64 (bytesOf map)) size offset

/-- A bit that is found in a word is wanted. -/
theorem found_of_word (long : bitsPerLong = 32 ∨ bitsPerLong = 64) {map : BitMap} {p offset : Nat}
    {word : BitVec bitsPerLong} (nonzero : word ≠ BitVec.ofNat bitsPerLong 0)
    (wanted : ∀ bit < bitsPerLong, word.getLsbD (place bit) = true →
      offset ≤ p * bitsPerLong + bit ∧ map (p * bitsPerLong + bit) = true) :
    offset ≤ p * bitsPerLong + reverseFfs word ∧
      map (p * bitsPerLong + reverseFfs word) = true := by
  obtain ⟨found_lt, isSet, -⟩ := reverseFfs_spec long nonzero
  exact wanted _ found_lt isSet

theorem foundFirst_found (long : bitsPerLong = 32 ∨ bitsPerLong = 64) {map : BitMap}
    {p offset rest : Nat} {tmp : BitVec bitsPerLong}
    (wanted : ∀ bit < bitsPerLong, tmp.getLsbD (place bit) = true →
      offset ≤ p * bitsPerLong + bit ∧ map (p * bitsPerLong + bit) = true)
    (found : foundFirst tmp rest (p * bitsPerLong) < p * bitsPerLong + rest) :
    offset ≤ foundFirst tmp rest (p * bitsPerLong) ∧
      map (foundFirst tmp rest (p * bitsPerLong)) = true := by
  rw [foundFirst] at found ⊢
  split at found
  · exact absurd found (Nat.lt_irrefl _)
  · next nonzero =>
      rw [if_neg nonzero]
      refine found_of_word long nonzero fun bit bit_lt isSet => ?_
      rw [BitVec.getLsbD_and, Bool.and_eq_true] at isSet
      exact wanted bit bit_lt isSet.1

theorem findAligned_found (long : bitsPerLong = 32 ∨ bitsPerLong = 64) {map : BitMap}
    {read : Nat → BitVec bitsPerLong} (holds : Holds bitsPerLong read map) {rest words p : Nat}
    (found : findAligned read id foundFirst rest words p (p * bitsPerLong) <
      (p + words) * bitsPerLong + rest) :
    p * bitsPerLong ≤ findAligned read id foundFirst rest words p (p * bitsPerLong) ∧
      map (findAligned read id foundFirst rest words p (p * bitsPerLong)) = true := by
  have wanted : ∀ p, ∀ bit < bitsPerLong, (read p).getLsbD (place bit) = true →
      p * bitsPerLong ≤ p * bitsPerLong + bit ∧ map (p * bitsPerLong + bit) = true :=
    fun p bit bit_lt isSet => ⟨by omega, by rw [← holds p bit bit_lt]; exact isSet⟩
  induction words generalizing p with
  | zero =>
      rw [findAligned] at found ⊢
      split at found
      · next none =>
          rw [none, Nat.add_zero, Nat.add_zero] at found
          exact absurd found (Nat.lt_irrefl _)
      · next some =>
          rw [if_neg some]
          exact foundFirst_found long (wanted p) found
  | succ words ih =>
      rw [findAligned] at found ⊢
      split at found
      · next zero =>
          rw [if_pos zero]
          rw [← Nat.add_one_mul] at found ⊢
          obtain ⟨above, isSet⟩ := ih (by rw [Nat.add_right_comm]; exact found)
          exact ⟨(Nat.mul_le_mul_right _ (Nat.le_succ p)).trans above, isSet⟩
      · next nonzero =>
          rw [if_neg nonzero]
          exact found_of_word long nonzero (wanted p)

/-- What the search finds below the size is a set bit from the start on. -/
theorem revNextBit_found {map : BitMap} {size offset : Nat}
    (found : revNextBit map size offset < size) :
    offset ≤ revNextBit map size offset ∧ map (revNextBit map size offset) = true := by
  have holds : Holds 64 (loadLong 64 (bytesOf map)) map := by
    have whole := holds_loadLong (by decide : 8 ∣ 64) (bytesOf map)
    rw [testBits_bytesOf] at whole
    exact whole
  rw [revNextBit, findRevNextBit] at found ⊢
  split at found
  · exact absurd found (Nat.lt_irrefl _)
  · next offset_lt =>
      rw [if_neg offset_lt]
      have split_offset := Nat.div_add_mod' offset 64
      dsimp only at found ⊢
      split at found
      · next aligned =>
          rw [if_pos aligned]
          have spec := findAligned_found (.inr rfl) holds (found.trans_le (by omega))
          exact ⟨by omega, spec.2⟩
      · next unaligned =>
          rw [if_neg unaligned]
          have wanted : ∀ bit < 64, (loadLong 64 (bytesOf map) (offset / 64) &&&
              nextMask (offset % 64)).getLsbD (place bit) = true →
                offset ≤ offset / 64 * 64 + bit ∧ map (offset / 64 * 64 + bit) = true := by
            intro bit bit_lt isSet
            rw [BitVec.getLsbD_and, getLsbD_nextMask (by decide) bit_lt, holds _ bit bit_lt,
              Bool.and_eq_true, decide_eq_true_eq] at isSet
            exact ⟨by omega, isSet.1⟩
          split at found
          · next short =>
              rw [if_pos short]
              exact foundFirst_found (.inr rfl) wanted (found.trans_le (by omega))
          · next long =>
              rw [if_neg long]
              split at found
              · next nonzero =>
                  rw [if_pos nonzero]
                  exact found_of_word (.inr rfl) nonzero wanted
              · next zero =>
                  rw [if_neg zero]
                  rw [← Nat.add_one_mul] at found ⊢
                  have spec := findAligned_found (.inr rfl) holds (found.trans_le (by omega))
                  exact ⟨by omega, spec.2⟩

/-- The runs that the two searches find in turn.  The one for the end of a run is right
(`findRevNextZeroBit_spec`). -/
def revRuns (map : BitMap) (size offset : Nat) : List (Nat × Nat) :=
  if _found : revNextBit map size offset < size then
    (revNextBit map size offset, map.findNextZeroBit size (revNextBit map size offset + 1)) ::
      revRuns map size (map.findNextZeroBit size (revNextBit map size offset + 1) + 1)
  else []
termination_by size - offset
decreasing_by
  have inside : offset ≤ revNextBit map size offset := (revNextBit_found _found).1
  have after : revNextBit map size offset + 1 ≤
      map.findNextZeroBit size (revNextBit map size offset + 1) := BitMap.le_findNext _found
  omega

/-- A run lies between `offset` and `size`, is not empty, and has set bits only. -/
theorem mem_revRuns {map : BitMap} {size offset : Nat} {run : Nat × Nat}
    (mem : run ∈ revRuns map size offset) :
    offset ≤ run.1 ∧ run.1 < run.2 ∧ run.2 ≤ size ∧
      ∀ bit, run.1 ≤ bit → bit < run.2 → map bit = true := by
  induction offset using revRuns.induct map size with
  | case1 offset found ih =>
      obtain ⟨lower, isSet⟩ := revNextBit_found found
      have after : revNextBit map size offset + 1 ≤
          map.findNextZeroBit size (revNextBit map size offset + 1) := BitMap.le_findNext found
      rw [revRuns, dif_pos found] at mem
      obtain rfl | later := List.mem_cons.mp mem
      · refine ⟨lower, after, BitMap.findNext_le _ _ _ _, fun bit above below => ?_⟩
        rcases Nat.eq_or_lt_of_le above with first | behind
        · rw [← first]
          exact isSet
        · simpa using BitMap.findNext_skipped behind below
      · obtain ⟨later_lower, rest⟩ := ih later
        exact ⟨by omega, rest⟩
  | case2 offset missed =>
      rw [revRuns, dif_neg missed] at mem
      cases mem

end F2fs
end StorageStack
