import StorageStack.Pos.FiniteMap

/-!
# Ranges of pages

`pos_reduce_map_array` and `pos_copy_partial_map_array` take a range of page numbers, and go into a
sub-array only when an end of the range lies in it or at the page behind it.  The first then frees the
sub-array as a whole.  `pos_reduce_map_array_level` steps down through first sub-arrays without a look
at whether there are any.
-/

namespace StorageStack.Pos

variable {map dst : MapArray} {junk : Junk} {start firstPn lastPn : Nat}

/-- The page of an array lies in a range of page numbers. -/
def InRange (firstPn lastPn pn page : Nat) : Prop := firstPn ≤ pn + page ∧ pn + page ≤ lastPn

instance (firstPn lastPn pn page : Nat) : Decidable (InRange firstPn lastPn pn page) :=
  inferInstanceAs (Decidable (_ ∧ _))

/-! ## Reducing -/

/-- `pos_reduce_map_array` takes the pages of the range out of the array and no others. -/
def ReducesExactly (map : MapArray) (firstPn lastPn : Nat) : Prop :=
  ∃ after, reduceSlot firstPn lastPn map.slot = some after ∧
    ∀ page < posLevelToPages map.level, after.frameAt page =
      if InRange firstPn lastPn map.pn page then none else map.frameAt page

/-- For every page with a frame the test on the word that leads to it says whether the page is in the
range. -/
def SelectsExactly (map : MapArray) (firstPn lastPn : Nat) : Prop :=
  ∀ page < posLevelToPages map.level, map.frameAt page ≠ none →
    (Clears map.level map.pn firstPn lastPn (page / posLevelToPages (map.level - 1)) ↔
      InRange firstPn lastPn map.pn page)

theorem reducesExactly_iff (numbered : Numbered map.level map.pn map.pfns) :
    ReducesExactly map firstPn lastPn ↔ SelectsExactly map firstPn lastPn := by
  obtain ⟨level, pn, words⟩ := map
  obtain ⟨below, rfl⟩ := numbered.exists_level
  obtain ⟨reduced, step, -, word⟩ := reduceSlot_spec firstPn lastPn below pn numbered.shaped
  have frame : ∀ page < posLevelToPages (below + 1),
      (MapArray.mk (below + 1) pn reduced).frameAt page =
        if Clears (below + 1) pn firstPn lastPn (page / posLevelToPages below) then none
        else (MapArray.mk (below + 1) pn words).frameAt page := by
    intro page inside
    rw [MapArray.frameAt, MapArray.frameAt, word page inside]
    split <;> rfl
  constructor
  · rintro ⟨after, found, exactly⟩ page inside some
    have after_eq : after = ⟨below + 1, pn, reduced⟩ := Option.some.inj (found.symm.trans step)
    have same := (frame page inside).symm.trans (after_eq ▸ exactly page inside)
    show Clears (below + 1) pn firstPn lastPn (page / posLevelToPages below) ↔ _
    by_cases clears : Clears (below + 1) pn firstPn lastPn (page / posLevelToPages below) <;>
      by_cases inRange : InRange firstPn lastPn pn page <;>
        simp_all
  · intro selects
    refine ⟨_, step, fun page inside => (frame page inside).trans ?_⟩
    rcases Classical.em ((MapArray.mk (below + 1) pn words).frameAt page = none) with none | some
    · rw [none, ite_self, ite_self]
    · exact if_congr (selects page inside some) rfl rfl

/-! ## Copying -/

/-- The copy goes into every sub-array on the way to the page. -/
def Followed (firstPn lastPn : Nat) : Nat → Nat → (Nat → Slot) → Nat → Prop
  | 0, _, _, _ => True
  | 1, _, _, _ => True
  | level + 2, pn, words, page =>
      touches pn (posLevelToPages (level + 1)) (page / posLevelToPages (level + 1)) firstPn lastPn =
        true ∧
      match words (page / posLevelToPages (level + 1)) with
      | .array _ subPn sub =>
          Followed firstPn lastPn (level + 1) subPn sub (page % posLevelToPages (level + 1))
      | _ => True

/-- The frame that the copy takes from a page. -/
def taken (firstPn lastPn : Nat) : Nat → Nat → (Nat → Slot) → Nat → Option Nat
  | 0, _, _, _ => none
  | 1, pn, words, page => if InRange firstPn lastPn pn page then (words page).frame? else none
  | level + 2, pn, words, page =>
      if touches pn (posLevelToPages (level + 1)) (page / posLevelToPages (level + 1)) firstPn lastPn
      then
        match words (page / posLevelToPages (level + 1)) with
        | .array _ subPn sub =>
            taken firstPn lastPn (level + 1) subPn sub (page % posLevelToPages (level + 1))
        | _ => none
      else none

/-- The copy takes the frames of the pages of the range to which it goes. -/
theorem taken_eq_some_iff {pfn : Nat} (level : Nat) : ∀ {pn : Nat} {words : Nat → Slot} {page : Nat},
    Numbered (level + 1) pn words → page < posLevelToPages (level + 1) →
      (taken firstPn lastPn (level + 1) pn words page = some pfn ↔
        InRange firstPn lastPn pn page ∧ Followed firstPn lastPn (level + 1) pn words page ∧
          (wordAt (level + 1) words page).frame? = some pfn) := by
  induction level with
  | zero =>
      intro pn words page _ _
      simp only [taken, Followed, wordAt, true_and]
      split
      next inRange => exact (and_iff_right inRange).symm
      next outside => simp [outside]
  | succ level ih =>
      intro pn words page numbered inside
      have number : pn + page / posLevelToPages (level + 1) * posLevelToPages (level + 1) +
          page % posLevelToPages (level + 1) = pn + page := by
        rw [Nat.add_assoc, Nat.mul_comm, Nat.div_add_mod]
      rw [taken, Followed, wordAt]
      rcases numbered _ (index_lt inside) with missing | ⟨sub, found, sub_numbered⟩
      · rw [missing]
        simp [Slot.frame?]
      · have sub_iff := ih sub_numbered (mod_lt_pages page (level + 1))
        rw [found]
        dsimp only
        split
        next touched =>
          rw [sub_iff, InRange, InRange, number]
          simp [touched]
        next passed => simp [passed]

/-- The frame that the copy takes from the page with the number. -/
def takenAt (firstPn lastPn level pn : Nat) (words : Nat → Slot) (number : Nat) : Option Nat :=
  if pn ≤ number ∧ number < pn + posLevelToPages level then
    taken firstPn lastPn level pn words (number - pn)
  else none

/-- The destination during a copy: it has the frames that were taken, and its own. -/
structure Received (dst : MapArray) (start : Nat) (given : Nat → Option Nat) (after : MapArray) :
    Prop where
  level : after.level = dst.level
  shaped : Shaped dst.level after.pfns
  frames : ∀ page < posLevelToPages dst.level,
    after.frameAt page = (given (start + page)).or (dst.frameAt page)

theorem Received.congr {given other : Nat → Option Nat} {after : MapArray}
    (received : Received dst start given after) (same : ∀ number, other number = given number) :
    Received dst start other after := by
  obtain rfl : other = given := funext same
  exact received

theorem Received.trans {given more : Nat → Option Nat} {middle after : MapArray}
    (before : Received dst start given middle) (later : Received middle start more after) :
    Received dst start (fun number => (more number).or (given number)) after := by
  refine ⟨later.level.trans before.level, before.level ▸ later.shaped, fun page inside => ?_⟩
  rw [later.frames page (before.level ▸ inside), before.frames page inside, Option.or_assoc]

theorem received_nothing (shaped : Shaped dst.level dst.pfns) :
    Received dst start (fun _ => none) dst :=
  ⟨rfl, shaped, fun _ _ => rfl⟩

/-- The pages of the range have their place in the destination. -/
structure CoversRange (dst : MapArray) (start firstPn lastPn : Nat) : Prop where
  from_start : start ≤ firstPn
  last_lt : lastPn < start + posLevelToPages dst.level
  word : lastPn < 2 ^ 64

theorem CoversRange.congr {after : MapArray} (covers : CoversRange dst start firstPn lastPn)
    (same : after.level = dst.level) : CoversRange after start firstPn lastPn :=
  ⟨covers.from_start, same ▸ covers.last_lt, covers.word⟩

/-- A frame of the range goes into the empty page of its number. -/
theorem insert_received {number pfn : Nat} (shaped : Shaped dst.level dst.pfns)
    (covers : CoversRange dst start firstPn lastPn) (first : firstPn ≤ number) (last : number ≤ lastPn)
    (empty : dst.frameAt (number - start) = none) :
    ∃ after, posInsertPfn junk dst ((number + (2 ^ 64 - start % 2 ^ 64)) % 2 ^ 64) (.frame pfn) =
        some (true, after) ∧
      Received dst start (fun other => if other = number then some pfn else none) after := by
  have word := covers.word
  have from_start := covers.from_start
  have last_lt := covers.last_lt
  have place : (number + (2 ^ 64 - start % 2 ^ 64)) % 2 ^ 64 = number - start := by omega
  obtain ⟨level, pn, words⟩ := dst
  obtain ⟨below, rfl⟩ : ∃ below, level = below + 1 := by
    cases level with
    | zero => exact shaped.elim
    | succ below => exact ⟨below, rfl⟩
  obtain ⟨after, step, after_shaped, frames⟩ := posInsertPfn_spec junk pfn rfl shaped
    (show number - start < posLevelToPages (below + 1) by
      dsimp only at last_lt
      omega)
  rw [place, step, empty]
  refine ⟨_, rfl, rfl, after_shaped, fun page inside => ?_⟩
  rw [frames page, empty]
  rcases eq_or_ne page (number - start) with rfl | other
  · rw [if_pos rfl, if_pos (by omega)]
    rfl
  · rw [if_neg other, if_neg (by omega)]
    rfl

/-- The part of what is taken that lies below an index. -/
def takenBelow (firstPn lastPn level pn : Nat) (words : Nat → Slot) (index number : Nat) :
    Option Nat :=
  if number < pn + index * posLevelToPages level then
    takenAt firstPn lastPn (level + 1) pn words number
  else none

/-- The part of what is taken that lies below one word. -/
def takenAtIndex (firstPn lastPn level pn : Nat) (words : Nat → Slot) (index number : Nat) :
    Option Nat :=
  if pn + index * posLevelToPages level ≤ number ∧
      number < pn + (index + 1) * posLevelToPages level then
    taken firstPn lastPn (level + 1) pn words (number - pn)
  else none

theorem takenBelow_succ {level pn index number : Nat} {words : Nat → Slot}
    (inside : index < posMapNr) :
    takenBelow firstPn lastPn level pn words (index + 1) number =
      (takenAtIndex firstPn lastPn level pn words index number).or
        (takenBelow firstPn lastPn level pn words index number) := by
  have whole : (index + 1) * posLevelToPages level ≤ posLevelToPages (level + 1) := by
    rw [posLevelToPages_succ]
    exact Nat.mul_le_mul_right _ inside
  have part : (index + 1) * posLevelToPages level =
      index * posLevelToPages level + posLevelToPages level := Nat.succ_mul _ _
  have pos := posLevelToPages_pos level
  rw [takenBelow, takenAtIndex, takenBelow, takenAt]
  rcases Nat.lt_or_ge number (pn + index * posLevelToPages level) with early | late
  · have below : number < pn + (index + 1) * posLevelToPages level := by omega
    have elsewhere : ¬ (pn + index * posLevelToPages level ≤ number ∧
        number < pn + (index + 1) * posLevelToPages level) := by omega
    rw [if_pos below, if_neg elsewhere, if_pos early, Option.none_or]
  · rw [if_neg (show ¬ number < pn + index * posLevelToPages level by omega), Option.or_none]
    rcases Nat.lt_or_ge number (pn + (index + 1) * posLevelToPages level) with here | later
    · rw [if_pos here, if_pos (by omega), if_pos ⟨late, here⟩]
    · rw [if_neg (by omega), if_neg (by omega)]

theorem takenBelow_all {level pn : Nat} {words : Nat → Slot} (number : Nat) :
    takenBelow firstPn lastPn level pn words posMapNr number =
      takenAt firstPn lastPn (level + 1) pn words number := by
  rw [takenBelow, ← posLevelToPages_succ, takenAt]
  split
  · rfl
  · rw [if_neg (by omega)]

/-- The place of a number at an index of an array. -/
theorem place_at_index {level pn index number : Nat}
    (low : pn + index * posLevelToPages level ≤ number)
    (high : number < pn + (index + 1) * posLevelToPages level) :
    (number - pn) / posLevelToPages level = index ∧
      (number - pn) % posLevelToPages level = number - (pn + index * posLevelToPages level) := by
  have pos := posLevelToPages_pos level
  have split_off : number - pn = number - (pn + index * posLevelToPages level) +
      index * posLevelToPages level := by omega
  have small : number - (pn + index * posLevelToPages level) < posLevelToPages level := by
    rw [Nat.succ_mul] at high
    omega
  rw [split_off, Nat.add_mul_div_right _ _ pos, Nat.add_mul_mod_self_right,
    Nat.div_eq_of_lt small, Nat.mod_eq_of_lt small]
  exact ⟨Nat.zero_add _, rfl⟩

/-- Nothing is taken through an empty word. -/
theorem takenAtIndex_empty {level pn index number : Nat} {words : Nat → Slot}
    (empty : words index = .empty) :
    takenAtIndex firstPn lastPn level pn words index number = none := by
  rw [takenAtIndex]
  split
  next here =>
    obtain ⟨at_index, -⟩ := place_at_index here.1 here.2
    cases level with
    | zero =>
        rw [posLevelToPages_zero, Nat.div_one] at at_index
        rw [taken, at_index, empty]
        split <;> rfl
    | succ level =>
        rw [taken, at_index, empty]
        split <;> rfl
  next => rfl

theorem takenAtIndex_one {pn index number : Nat} {words : Nat → Slot} :
    takenAtIndex firstPn lastPn 0 pn words index number =
      if number = pn + index then
        if InRange firstPn lastPn pn index then (words index).frame? else none
      else none := by
  rw [takenAtIndex, posLevelToPages_zero]
  rcases eq_or_ne number (pn + index) with rfl | other
  · rw [if_pos (by omega), if_pos rfl, Nat.add_sub_cancel_left, taken]
  · rw [if_neg (by omega), if_neg other]

theorem takenAtIndex_array {level pn index number : Nat} {words sub : Nat → Slot}
    (found : words index =
      .array (level + 1) (pn + index * posLevelToPages (level + 1)) sub) :
    takenAtIndex firstPn lastPn (level + 1) pn words index number =
      if touches pn (posLevelToPages (level + 1)) index firstPn lastPn then
        takenAt firstPn lastPn (level + 1) (pn + index * posLevelToPages (level + 1)) sub number
      else none := by
  rw [takenAtIndex, takenAt, Nat.succ_mul, ← Nat.add_assoc]
  split
  next here =>
    obtain ⟨at_index, rest⟩ := place_at_index here.1 (by rw [Nat.succ_mul]; omega)
    rw [taken, at_index, found, rest]
  next elsewhere => rw [ite_self]

/-- What a copy needs of its destination: room for the range, in which the pages of an array have no
frames. -/
structure Ready (dst : MapArray) (start firstPn lastPn low high : Nat) : Prop where
  shaped : Shaped dst.level dst.pfns
  covers : CoversRange dst start firstPn lastPn
  empty : ∀ number, firstPn ≤ number → number ≤ lastPn → low ≤ number → number < high →
    dst.frameAt (number - start) = none

/-- A destination that has received pages of smaller numbers is still ready. -/
theorem Ready.received {low high newLow newHigh : Nat} {given : Nat → Option Nat} {after : MapArray}
    (ready : Ready dst start firstPn lastPn low high) (received : Received dst start given after)
    (low_le : low ≤ newLow) (high_le : newHigh ≤ high)
    (above : ∀ number, newLow ≤ number → given number = none) :
    Ready after start firstPn lastPn newLow newHigh := by
  refine ⟨received.level ▸ received.shaped, ready.covers.congr received.level,
    fun number first last from_low below => ?_⟩
  have from_start := ready.covers.from_start
  have last_lt := ready.covers.last_lt
  have back : start + (number - start) = number := by omega
  rw [received.frames _ (by omega), back, above number from_low, Option.none_or]
  exact ready.empty number first last (low_le.trans from_low) (by omega)

/-- A loop that gives each word its turn gives the destination what lies below its end. -/
theorem foldl_received {level pn : Nat} {words : Nat → Slot}
    {body : Option (Bool × MapArray) → Nat → Option (Bool × MapArray)}
    (ready : Ready dst start firstPn lastPn pn (pn + posLevelToPages (level + 1)))
    (each : ∀ index < posMapNr, ∀ middle,
      Ready middle start firstPn lastPn (pn + index * posLevelToPages level)
        (pn + posLevelToPages (level + 1)) →
      ∃ after, body (some (true, middle)) index = some (true, after) ∧
        Received middle start (takenAtIndex firstPn lastPn level pn words index) after) :
    ∀ count ≤ posMapNr, ∃ after,
      (List.range count).foldl body (some (true, dst)) = some (true, after) ∧
        Received dst start (takenBelow firstPn lastPn level pn words count) after := by
  intro count
  induction count with
  | zero =>
      intro _
      refine ⟨dst, rfl, (received_nothing ready.shaped).congr fun number => ?_⟩
      rw [takenBelow, takenAt]
      split
      next before => exact if_neg (by omega)
      next => rfl
  | succ count ih =>
      intro le
      obtain ⟨middle, step, received⟩ := ih (by omega)
      have ready_middle := ready.received received
        (Nat.le_add_right pn (count * posLevelToPages level)) (Nat.le_refl _)
        fun number from_low => if_neg (Nat.not_lt.2 from_low)
      obtain ⟨after, turn, received_more⟩ := each count le middle ready_middle
      refine ⟨after, ?_, (received.trans received_more).congr fun number => takenBelow_succ le⟩
      rw [List.range_succ, List.foldl_append, step]
      exact turn

/-- A copy into a destination that is ready succeeds, and the destination receives what is taken. -/
theorem copyPartial_spec (level : Nat) : ∀ {pn : Nat} {words : Nat → Slot} {dst : MapArray},
    Numbered (level + 1) pn words →
    Ready dst start firstPn lastPn pn (pn + posLevelToPages (level + 1)) →
    ∃ after, copyPartial junk start firstPn lastPn (.array (level + 1) pn words) dst =
        some (true, after) ∧
      Received dst start (takenAt firstPn lastPn (level + 1) pn words) after := by
  induction level with
  | zero =>
      intro pn words dst numbered ready
      rw [copyPartial]
      suffices looped : ∃ after, _ = some (true, after) ∧
          Received dst start (takenBelow firstPn lastPn 0 pn words posMapNr) after by
        obtain ⟨after, step, received⟩ := looped
        exact ⟨after, step, received.congr fun number => (takenBelow_all number).symm⟩
      apply foldl_received ready _ posMapNr (Nat.le_refl _)
      intro index inside middle ready
      rcases numbered index inside with empty | ⟨pfn, frame⟩
      · refine ⟨middle, by simp [empty, Slot.used], ?_⟩
        exact (received_nothing ready.shaped).congr fun number => takenAtIndex_empty empty
      · have used : (words index).used = true := by rw [frame]; rfl
        rw [posLevelToPages_zero, Nat.mul_one] at ready
        simp only [used, if_true]
        split
        next inRange =>
          have high : pn + index < pn + posLevelToPages 1 := by
            rw [posLevelToPages_one]
            omega
          rw [frame]
          obtain ⟨after, step, received⟩ := insert_received ready.shaped ready.covers inRange.1
            inRange.2 (ready.empty _ inRange.1 inRange.2 (Nat.le_refl _) high)
          refine ⟨after, step, received.congr fun number => ?_⟩
          rw [takenAtIndex_one, if_pos (show InRange _ _ _ _ from inRange), frame]
          rfl
        next outside =>
          refine ⟨middle, rfl, (received_nothing ready.shaped).congr fun number => ?_⟩
          rw [takenAtIndex_one, if_neg (show ¬ InRange _ _ _ _ from outside), ite_self]
  | succ level ih =>
      intro pn words dst numbered ready
      rw [copyPartial]
      suffices looped : ∃ after, _ = some (true, after) ∧
          Received dst start (takenBelow firstPn lastPn (level + 1) pn words posMapNr) after by
        obtain ⟨after, step, received⟩ := looped
        exact ⟨after, step, received.congr fun number => (takenBelow_all number).symm⟩
      apply foldl_received ready _ posMapNr (Nat.le_refl _)
      intro index inside middle ready
      rcases numbered index inside with empty | ⟨sub, found, sub_numbered⟩
      · refine ⟨middle, by simp [empty, Slot.used], ?_⟩
        exact (received_nothing ready.shaped).congr fun number => takenAtIndex_empty empty
      · have used : (words index).used = true := by rw [found]; rfl
        have deep : ¬ level + 1 + 1 = 1 := by omega
        simp only [used, if_true, if_neg deep, Nat.add_sub_cancel]
        split
        next touched =>
          have high : pn + index * posLevelToPages (level + 1) + posLevelToPages (level + 1) ≤
              pn + posLevelToPages (level + 1 + 1) := by
            rw [Nat.add_assoc, ← Nat.succ_mul, posLevelToPages_succ (level + 1)]
            exact Nat.add_le_add_left (Nat.mul_le_mul_right _ inside) _
          rw [found]
          obtain ⟨after, step, received⟩ := ih sub_numbered
            ⟨ready.shaped, ready.covers, fun number first last low below =>
              ready.empty number first last low (by omega)⟩
          refine ⟨after, step, received.congr fun number => ?_⟩
          rw [takenAtIndex_array found, if_pos touched]
        next passed =>
          refine ⟨middle, rfl, (received_nothing ready.shaped).congr fun number => ?_⟩
          rw [takenAtIndex_array found, if_neg passed]

/-- `pos_copy_partial_map_array` into an empty destination succeeds and gives it the frames of the
pages of the range and no others. -/
def CopiesExactly (junk : Junk) (src dst : MapArray) (start firstPn lastPn : Nat) : Prop :=
  ∃ after, copyPartial junk start firstPn lastPn src.slot dst = some (true, after) ∧
    ∀ page < posLevelToPages dst.level, after.frameAt page =
      if firstPn ≤ start + page ∧ start + page ≤ lastPn ∧ src.pn ≤ start + page ∧
          start + page < src.pn + posLevelToPages src.level then
        src.frameAt (start + page - src.pn)
      else none

/-- The copy goes to every page of the range that has a frame. -/
def FollowsAll (src : MapArray) (firstPn lastPn : Nat) : Prop :=
  ∀ page < posLevelToPages src.level, InRange firstPn lastPn src.pn page →
    src.frameAt page ≠ none → Followed firstPn lastPn src.level src.pn src.pfns page

theorem copiesExactly_iff (numbered : Numbered map.level map.pn map.pfns)
    (shaped : Shaped dst.level dst.pfns) (covers : CoversRange dst start firstPn lastPn)
    (empty : ∀ page < posLevelToPages dst.level, dst.frameAt page = none) :
    CopiesExactly junk map dst start firstPn lastPn ↔ FollowsAll map firstPn lastPn := by
  obtain ⟨level, pn, words⟩ := map
  obtain ⟨below, rfl⟩ := numbered.exists_level
  have from_start := covers.from_start
  have last_lt := covers.last_lt
  have ready : Ready dst start firstPn lastPn pn (pn + posLevelToPages (below + 1)) :=
    ⟨shaped, covers, fun number first last _ _ => empty _ (by omega)⟩
  obtain ⟨after, step, received⟩ := @copyPartial_spec junk start firstPn lastPn below pn words dst
    numbered ready
  have frames : ∀ page < posLevelToPages dst.level,
      after.frameAt page = takenAt firstPn lastPn (below + 1) pn words (start + page) := by
    intro page inside
    rw [received.frames page inside, empty page inside, Option.or_none]
  -- Only pages of the range are taken, each with its frame.
  have of_taken : ∀ {page pfn}, page < posLevelToPages (below + 1) →
      taken firstPn lastPn (below + 1) pn words page = some pfn →
        InRange firstPn lastPn pn page ∧
          (wordAt (below + 1) words page).frame? = some pfn := by
    intro page pfn inside some
    obtain ⟨inRange, -, frame⟩ := (taken_eq_some_iff below numbered inside).1 some
    exact ⟨inRange, frame⟩
  constructor
  · rintro ⟨copied, found, exactly⟩ page inside inRange some
    obtain ⟨pfn, frame⟩ := Option.ne_none_iff_exists'.1 some
    have copied_eq : copied = after := by
      have same := Option.some.inj (found.symm.trans step)
      exact congrArg Prod.snd same
    have inside_dst : pn + page - start < posLevelToPages dst.level := by
      have first := inRange.1
      have last := inRange.2
      dsimp only at first last
      omega
    have place : start + (pn + page - start) = pn + page := by
      have first := inRange.1
      dsimp only at first
      omega
    have given := (frames _ inside_dst).symm.trans (copied_eq ▸ exactly _ inside_dst)
    rw [place, if_pos ⟨inRange.1, inRange.2, Nat.le_add_right _ _, Nat.add_lt_add_left inside _⟩,
      Nat.add_sub_cancel_left, frame, takenAt,
      if_pos ⟨Nat.le_add_right _ _, Nat.add_lt_add_left inside _⟩, Nat.add_sub_cancel_left] at given
    exact ((taken_eq_some_iff below numbered inside).1 given).2.1
  · intro follows
    refine ⟨after, step, fun page inside => ?_⟩
    rw [frames page inside, takenAt]
    dsimp only
    split
    next within =>
      have in_src : start + page - pn < posLevelToPages (below + 1) := by omega
      have place : pn + (start + page - pn) = start + page := by omega
      by_cases inRange : InRange firstPn lastPn pn (start + page - pn)
      · have bounds := inRange
        rw [InRange, place] at bounds
        rw [if_pos ⟨bounds.1, bounds.2, within.1, within.2⟩]
        show _ = (wordAt (below + 1) words (start + page - pn)).frame?
        cases frame : (wordAt (below + 1) words (start + page - pn)).frame? with
        | none =>
            apply Option.eq_none_iff_forall_ne_some.2
            intro pfn some
            rw [(of_taken in_src some).2] at frame
            cases frame
        | some pfn =>
            have followed := follows _ in_src inRange (by
              rw [MapArray.frameAt]
              exact frame ▸ Option.some_ne_none pfn)
            exact (taken_eq_some_iff below numbered in_src).2 ⟨inRange, followed, frame⟩
      · have outside : ¬ (firstPn ≤ start + page ∧ start + page ≤ lastPn ∧ pn ≤ start + page ∧
            start + page < pn + posLevelToPages (below + 1)) := by
          rintro ⟨first, last, -, -⟩
          refine inRange ⟨?_, ?_⟩
          · omega
          · omega
        rw [if_neg outside]
        apply Option.eq_none_iff_forall_ne_some.2
        intro pfn some
        exact inRange (of_taken in_src some).1
    next elsewhere =>
      rw [if_neg]
      rintro ⟨-, -, low, high⟩
      exact elsewhere ⟨low, high⟩

/-! ## Levels -/

/-- `pos_reduce_map_array_level` of a map array for so many pages keeps every page where it can be
found. -/
def KeepsReachable (map : MapArray) (nrPages : Nat) : Prop :=
  ∃ after, reduceLevel (posPagesToLevel nrPages) map.slot = some after ∧
    ∀ page < posLevelToPages map.level, map.frameAt page ≠ none →
      page < posLevelToPages after.level ∧ after.frameAt page = map.frameAt page

/-- There is a first sub-array at every level above the target. -/
def FirstsExist (target : Nat) : Nat → (Nat → Slot) → Prop
  | 0, _ => True
  | 1, _ => True
  | level + 2, words => target < level + 2 →
      ∃ pn sub, words 0 = .array (level + 1) pn sub ∧ FirstsExist target (level + 1) sub

/-- The step down ends exactly when there are first sub-arrays. -/
theorem reduceLevel_isSome_iff {target : Nat} (positive : 1 ≤ target) (level : Nat) :
    ∀ {pn : Nat} {words : Nat → Slot}, Shaped (level + 1) words →
      ((∃ after, reduceLevel target (.array (level + 1) pn words) = some after) ↔
        FirstsExist target (level + 1) words) := by
  induction level with
  | zero =>
      intro pn words _
      rw [reduceLevel, if_neg (by omega)]
      exact iff_of_true ⟨_, rfl⟩ trivial
  | succ level ih =>
      intro pn words shaped
      rw [reduceLevel, FirstsExist]
      split
      next higher =>
        rcases shaped 0 (by decide) with missing | ⟨subPn, sub, found, sub_shaped⟩
        · have stuck : reduceLevel target .empty = none := by simp [reduceLevel]
          rw [missing, stuck]
          constructor
          · rintro ⟨after, step⟩
            cases step
          · intro firsts
            obtain ⟨_, _, found, _⟩ := firsts higher
            cases found
        · rw [found, ih sub_shaped]
          constructor
          · exact fun firsts _ => ⟨subPn, sub, rfl, firsts⟩
          · intro firsts
            obtain ⟨_, _, same, firsts⟩ := firsts higher
            cases same
            exact firsts
      next enough => exact iff_of_true ⟨_, rfl⟩ fun higher => absurd higher enough

/-- The step down keeps the words of the pages that are left. -/
theorem reduceLevel_spec {target : Nat} (positive : 1 ≤ target) (level : Nat) :
    ∀ {pn : Nat} {words : Nat → Slot} {after : MapArray}, Shaped (level + 1) words →
      reduceLevel target (.array (level + 1) pn words) = some after →
      min target (level + 1) ≤ after.level ∧
        posLevelToPages after.level ≤ posLevelToPages (level + 1) ∧
        ∀ page < posLevelToPages after.level,
          after.frameAt page = (wordAt (level + 1) words page).frame? := by
  induction level with
  | zero =>
      intro pn words after _ step
      rw [reduceLevel, if_neg (by omega)] at step
      cases step
      exact ⟨Nat.min_le_right _ _, Nat.le_refl _, fun page _ => rfl⟩
  | succ level ih =>
      intro pn words after shaped step
      rw [reduceLevel] at step
      split at step
      next higher =>
        rcases shaped 0 (by decide) with missing | ⟨subPn, sub, found, sub_shaped⟩
        · rw [missing] at step
          simp [reduceLevel] at step
        · rw [found] at step
          obtain ⟨least, most, frames⟩ := ih sub_shaped step
          have smaller : posLevelToPages (level + 1) ≤ posLevelToPages (level + 1 + 1) := by
            rw [posLevelToPages_succ (level + 1)]
            exact Nat.le_mul_of_pos_left _ (by decide)
          refine ⟨by omega, most.trans smaller, fun page inside => ?_⟩
          have first := Nat.lt_of_lt_of_le inside most
          rw [frames page inside, wordAt, Nat.div_eq_of_lt first, found, Nat.mod_eq_of_lt first]
      next enough =>
        cases step
        exact ⟨Nat.min_le_right _ _, Nat.le_refl _, fun page _ => rfl⟩

theorem keepsReachable_iff {nrPages : Nat} (numbered : Numbered map.level map.pn map.pfns)
    (word : nrPages < 2 ^ 64)
    (beyond : ∀ page, nrPages ≤ page → page < posLevelToPages map.level →
      map.frameAt page = none) :
    KeepsReachable map nrPages ↔ FirstsExist (posPagesToLevel nrPages) map.level map.pfns := by
  obtain ⟨level, pn, words⟩ := map
  obtain ⟨below, rfl⟩ := numbered.exists_level
  have positive := one_le_posPagesToLevel nrPages
  have isSome := @reduceLevel_isSome_iff _ positive below pn words numbered.shaped
  rw [← isSome]
  constructor
  · rintro ⟨after, step, -⟩
    exact ⟨after, step⟩
  · rintro ⟨after, step⟩
    obtain ⟨least, most, frames⟩ := reduceLevel_spec positive below numbered.shaped step
    refine ⟨after, step, fun page inside some => ?_⟩
    have early : page < nrPages := by
      by_contra late
      exact some (beyond page (Nat.not_lt.1 late) inside)
    have enough : nrPages ≤ posLevelToPages (posPagesToLevel nrPages) := by
      apply le_posPagesToLevel
      exact word.le.trans (by norm_num [posMapNr])
    have reached : page < posLevelToPages after.level := by
      rcases Nat.le_total (posPagesToLevel nrPages) (below + 1) with fewer | more
      · rw [Nat.min_eq_left fewer] at least
        exact (early.trans_le enough).trans_le (Nat.pow_le_pow_right (by decide) least)
      · rw [Nat.min_eq_right more] at least
        exact inside.trans_le (Nat.pow_le_pow_right (by decide) least)
    exact ⟨reached, frames page reached⟩

/-- The operations on ranges touch exactly the range when the tests on the sub-arrays agree with it,
and the step down keeps every page when it finds first sub-arrays. -/
theorem rangeOperations_iff (junk : Junk) {nrPages : Nat}
    (numbered : Numbered map.level map.pn map.pfns) :
    (ReducesExactly map firstPn lastPn ↔ SelectsExactly map firstPn lastPn) ∧
    (Shaped dst.level dst.pfns → CoversRange dst start firstPn lastPn →
      (∀ page < posLevelToPages dst.level, dst.frameAt page = none) →
      (CopiesExactly junk map dst start firstPn lastPn ↔ FollowsAll map firstPn lastPn)) ∧
    (nrPages < 2 ^ 64 →
      (∀ page, nrPages ≤ page → page < posLevelToPages map.level → map.frameAt page = none) →
      (KeepsReachable map nrPages ↔
        FirstsExist (posPagesToLevel nrPages) map.level map.pfns)) :=
  ⟨reducesExactly_iff numbered,
    fun shaped covers empty => copiesExactly_iff numbered shaped covers empty,
    fun word beyond => keepsReachable_iff numbered word beyond⟩

/-- An array of level two with frames for its first two pages. -/
def firstTwo : MapArray :=
  ⟨2, 0, fun i => if i = 0 then .array 1 0 fun j => if j < 2 then .frame (j + 7) else .empty
    else .empty⟩

theorem firstTwo_numbered : Numbered firstTwo.level firstTwo.pn firstTwo.pfns := by
  intro i inside
  rcases Nat.eq_zero_or_pos i with rfl | later
  · refine .inr ⟨_, rfl, fun j inside => ?_⟩
    rcases Nat.lt_or_ge j 2 with early | late
    · exact .inr ⟨j + 7, if_pos early⟩
    · exact .inl (if_neg (Nat.not_lt.2 late))
  · exact .inl (if_neg (Nat.ne_of_gt later))

theorem frameAt_firstTwo {page : Nat} (late : 2 ≤ page) : firstTwo.frameAt page = none := by
  rw [MapArray.frameAt, firstTwo, wordAt, posLevelToPages_one]
  rcases Nat.lt_or_ge page posMapNr with first | later
  · have place : ¬ page ≤ 1 := Nat.not_le.2 late
    simp [Nat.div_eq_of_lt first, Nat.mod_eq_of_lt first, wordAt, place, Slot.frame?]
  · have index : page / posMapNr ≠ 0 := by
      have := Nat.div_pos later (by decide)
      omega
    simp [index, Slot.frame?]

/-- A reduction to the first sub-array of an array with two pages. -/
theorem rangeOperations_firstTwo : KeepsReachable firstTwo 2 := by
  have both := @rangeOperations_iff firstTwo (MapArray.new 1 0) 0 0 1 ⟨fun _ _ _ => 0,
    fun _ => .empty⟩ 2 firstTwo_numbered
  rw [both.2.2 (by norm_num) fun page late _ => frameAt_firstTwo late]
  exact fun _ => ⟨0, _, rfl, trivial⟩

/-- Taking page 1 out of the array takes page 0 out as well. -/
theorem reduce_takes_more : ¬ ∀ (map : MapArray) (firstPn lastPn : Nat),
    Numbered map.level map.pn map.pfns → firstPn ≤ lastPn →
      ReducesExactly map firstPn lastPn := by
  intro always
  have reduces := always firstTwo 1 1 firstTwo_numbered (Nat.le_refl _)
  rw [reducesExactly_iff firstTwo_numbered] at reduces
  have selected := reduces 0 (by decide) (by decide)
  exact absurd (selected.1 (by decide)) (by decide)

end StorageStack.Pos
