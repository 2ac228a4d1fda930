import Ceccomp.Ebpf.Bitmap
import Mathlib.Algebra.BigOperators.Intervals

/-!
`setbits` and `countbits` over the words that `ebpf2cbpf` allocates, in 32-bit
arithmetic. An index behind the last word and a shift by 32 or more are `none`.
-/

namespace Ceccomp

abbrev Words := List (BitVec 32)

/-- The bitmap that begins with the words. -/
def Words.bitmap (words : Words) : Bitmap := fun idx => words.getD idx 0

namespace Allocated

/-- A shift of 32 bits, which is undefined from the width on. -/
def shiftLeft (value amount : BitVec 32) : Option (BitVec 32) :=
  if amount.toNat < 32 then some (value <<< amount.toNat) else none

def orWord (words : Words) (idx mask : BitVec 32) : Option Words :=
  (words[idx.toNat]?).map fun word => words.set idx.toNat (word ||| mask)

def setbits (words : Words) (fromidx count : BitVec 32) : Option Words :=
  if count = 0 then some words
  else
    let mapidx := fromidx / 32
    let frombit := fromidx % 32
    if mapidx ≠ (fromidx + count) / 32 then
      (shiftLeft (BitVec.allOnes 32) frombit).bind fun high =>
        (orWord words mapidx high).bind fun words =>
          (shiftLeft 1 ((fromidx + count) % 32)).bind fun one => orWord words (mapidx + 1) (one - 1)
    else
      (shiftLeft 1 count).bind fun one =>
        (shiftLeft (one - 1) frombit).bind fun mask => orWord words mapidx mask

def popcountAnd (words : Words) (idx bitmask : BitVec 32) : Option (BitVec 32) :=
  (words[idx.toNat]?).map fun word => BitVec.ofNat 32 (popcount (word &&& bitmask))

/-- The loop over the words strictly between the two ends, with the iterations left. -/
def popcountLoop (words : Words) (idx sum : BitVec 32) : Nat → Option (BitVec 32)
  | 0 => some sum
  | left + 1 =>
      (words[idx.toNat]?).bind fun word =>
        popcountLoop words (idx + 1) (sum + BitVec.ofNat 32 (popcount word)) left

def countbits (words : Words) (from_ stop : BitVec 32) : Option (BitVec 32) :=
  let startidx := from_ / 32
  let startbit := from_ % 32
  let endidx := stop / 32
  let endbit := stop % 32
  if startidx = endidx then
    (shiftLeft 1 (endbit - startbit)).bind fun one =>
      (shiftLeft (one - 1) startbit).bind fun bitmask => popcountAnd words startidx bitmask
  else
    (shiftLeft (BitVec.allOnes 32) startbit).bind fun high =>
      (popcountAnd words startidx high).bind fun first =>
        (shiftLeft 1 endbit).bind fun one =>
          (popcountAnd words endidx (one - 1)).bind fun last =>
            popcountLoop words (startidx + 1) (first + last) (endidx.toNat - (startidx + 1).toNat)

end Allocated

theorem shift_allowed (value amount : BitVec 32) (small : amount.toNat < 32) :
    Allocated.shiftLeft value amount = some (value <<< amount.toNat) := by
  unfold Allocated.shiftLeft
  rw [if_pos small]

theorem bitmap_word (words : Words) (idx : Nat) (inside : idx < words.length) :
    words[idx]? = some (words.bitmap idx) := by
  unfold Words.bitmap
  rw [List.getD_eq_getElem?_getD, List.getElem?_eq_getElem inside, Option.getD_some]

theorem bitmap_set (words : Words) (idx : Nat) (inside : idx < words.length) (mask : BitVec 32) :
    Words.bitmap (words.set idx (words.bitmap idx ||| mask)) = words.bitmap.orWord idx mask := by
  funext other
  unfold Bitmap.orWord
  by_cases same : other = idx
  · subst same
    have read : (words.set other (words.bitmap other ||| mask))[other]? =
        some (words.bitmap other ||| mask) := List.getElem?_set_self inside
    rw [Function.update_self, Words.bitmap, List.getD_eq_getElem?_getD, read, Option.getD_some]
  · rw [Function.update_of_ne same]
    unfold Words.bitmap
    rw [List.getD_eq_getElem?_getD, List.getElem?_set_ne (Ne.symm same),
      List.getD_eq_getElem?_getD]

theorem or_word_allocated (words : Words) (idx mask : BitVec 32)
    (inside : idx.toNat < words.length) :
    ∃ after, Allocated.orWord words idx mask = some after ∧ after.length = words.length ∧
      after.bitmap = words.bitmap.orWord idx.toNat mask := by
  unfold Allocated.orWord
  rw [bitmap_word words _ inside]
  exact ⟨_, rfl, List.length_set, bitmap_set words _ inside mask⟩

theorem setbits_allocated (words : Words) (fromidx count : BitVec 32) (small : count.toNat < 32)
    (inside : fromidx.toNat + count.toNat < 32 * words.length) :
    ∃ after, Allocated.setbits words fromidx count = some after ∧ after.length = words.length ∧
      after.bitmap = setbits words.bitmap fromidx.toNat count.toNat := by
  have width := fromidx.isLt
  have idx : (fromidx / 32).toNat = fromidx.toNat / 32 := BitVec.toNat_udiv
  have bit : (fromidx % 32).toNat = fromidx.toNat % 32 := BitVec.toNat_umod
  have endBit : ((fromidx + count) % 32).toNat = (fromidx.toNat + count.toNat) % 32 := by
    have wrapped : ((fromidx + count) % 32).toNat =
        (fromidx.toNat + count.toNat) % 2 ^ 32 % 32 := BitVec.toNat_umod
    rw [wrapped]
    omega
  have spread : fromidx / 32 = (fromidx + count) / 32 ↔
      fromidx.toNat / 32 = (fromidx.toNat + count.toNat) / 32 := by
    have wrapped : ((fromidx + count) / 32).toNat =
        (fromidx.toNat + count.toNat) % 2 ^ 32 / 32 := BitVec.toNat_udiv
    rw [← BitVec.toNat_inj, idx, wrapped]
    omega
  have next : (fromidx / 32 + 1).toNat = fromidx.toNat / 32 + 1 := by
    rw [BitVec.toNat_add, idx]
    show (fromidx.toNat / 32 + 1) % 2 ^ 32 = _
    omega
  unfold Allocated.setbits setbits
  by_cases zero : count = 0
  · subst zero
    exact ⟨words, rfl, rfl, rfl⟩
  · have some_ : count.toNat ≠ 0 := fun none => zero (BitVec.eq_of_toNat_eq none)
    rw [if_neg zero, if_neg some_]
    by_cases same : fromidx.toNat / u32Bits = (fromidx.toNat + count.toNat) / u32Bits
    · rw [if_neg (not_not_intro (spread.mpr same)), if_neg (not_not_intro same)]
      rw [shift_allowed _ _ small, Option.bind_some, shift_allowed _ _ (by omega),
        Option.bind_some, bit]
      have done := or_word_allocated words (fromidx / 32)
        (lowMask count.toNat <<< (fromidx.toNat % 32)) (by omega)
      rw [idx] at done
      exact done
    · rw [if_pos (fun eq => same (spread.mp eq)), if_pos same]
      rw [shift_allowed _ _ (by omega), Option.bind_some, bit]
      obtain ⟨first, one, firstLength, firstBits⟩ := or_word_allocated words (fromidx / 32)
        (highMask (fromidx.toNat % 32)) (by omega)
      obtain ⟨second, two, secondLength, secondBits⟩ := or_word_allocated first (fromidx / 32 + 1)
        (lowMask ((fromidx.toNat + count.toNat) % 32)) (by
          simp only [u32Bits] at same
          omega)
      refine ⟨second, ?_, secondLength.trans firstLength, ?_⟩
      · unfold highMask at one
        rw [one, Option.bind_some, shift_allowed _ _ (by omega), Option.bind_some, endBit]
        exact two
      · rw [secondBits, firstBits, idx, next]
        rfl

theorem popcount_and_allocated (words : Words) (idx bitmask : BitVec 32)
    (inside : idx.toNat < words.length) :
    Allocated.popcountAnd words idx bitmask =
      some (BitVec.ofNat 32 (popcount (words.bitmap idx.toNat &&& bitmask))) := by
  unfold Allocated.popcountAnd
  rw [bitmap_word words _ inside, Option.map_some]

theorem popcount_loop_allocated (words : Words) (idx sum : BitVec 32) (left : Nat)
    (inside : idx.toNat + left < words.length + 1) (width : idx.toNat + left < 2 ^ 32) :
    Allocated.popcountLoop words idx sum left =
      some (sum + BitVec.ofNat 32 (popcountWords words.bitmap idx.toNat left)) := by
  induction left generalizing idx sum with
  | zero =>
      rw [Allocated.popcountLoop, popcountWords]
      exact congrArg some (BitVec.add_zero sum).symm
  | succ left ih =>
      have next : (idx + 1).toNat = idx.toNat + 1 := by
        rw [BitVec.toNat_add]
        apply Nat.mod_eq_of_lt
        have one : (1 : BitVec 32).toNat = 1 := rfl
        omega
      rw [Allocated.popcountLoop, bitmap_word words _ (by omega), Option.bind_some,
        ih (idx + 1) _ (by omega) (by omega), next, popcountWords, BitVec.ofNat_add,
        BitVec.add_assoc]

theorem below_le (bitmap : Bitmap) (n : Nat) : bitmap.below n ≤ n := Nat.count_le _

theorem countbits_allocated (words : Words) (from_ stop : BitVec 32) (le : from_.toNat ≤ stop.toNat)
    (inside : stop.toNat < 32 * words.length) :
    ∃ sum, Allocated.countbits words from_ stop = some sum ∧
      sum.toNat = countbits words.bitmap from_.toNat stop.toNat := by
  have width := stop.isLt
  have startidx : (from_ / 32).toNat = from_.toNat / 32 := BitVec.toNat_udiv
  have startbit : (from_ % 32).toNat = from_.toNat % 32 := BitVec.toNat_umod
  have endidx : (stop / 32).toNat = stop.toNat / 32 := BitVec.toNat_udiv
  have endbit : (stop % 32).toNat = stop.toNat % 32 := BitVec.toNat_umod
  -- the number never exceeds 32 bits, so that sums may be taken modulo 2 ^ 32
  have total : countbits words.bitmap from_.toNat stop.toNat < 2 ^ 32 := by
    have counted := countbits_below words.bitmap _ _ le
    have bound := below_le words.bitmap stop.toNat
    omega
  suffices exact_ : Allocated.countbits words from_ stop =
      some (BitVec.ofNat 32 (countbits words.bitmap from_.toNat stop.toNat)) by
    refine ⟨_, exact_, ?_⟩
    rw [BitVec.toNat_ofNat, Nat.mod_eq_of_lt total]
  unfold Allocated.countbits countbits
  by_cases same : from_.toNat / u32Bits = stop.toNat / u32Bits
  · have one : from_ / 32 = stop / 32 := by
      apply BitVec.eq_of_toNat_eq
      rw [startidx, endidx]
      exact same
    have window : (stop % 32 - from_ % 32).toNat = stop.toNat % 32 - from_.toNat % 32 := by
      have order : from_ % 32 ≤ stop % 32 := by
        rw [BitVec.le_def, startbit, endbit]
        simp only [u32Bits] at same
        omega
      rw [BitVec.toNat_sub_of_le order, startbit, endbit]
    rw [if_pos one, if_pos same, shift_allowed _ _ (by omega), Option.bind_some,
      shift_allowed _ _ (by omega), Option.bind_some, popcount_and_allocated _ _ _ (by omega),
      startidx, startbit, window]
    rfl
  · have spread : from_ / 32 ≠ stop / 32 := by
      intro one
      apply same
      have number := congrArg BitVec.toNat one
      rw [startidx, endidx] at number
      exact number
    have next : (from_ / 32 + 1).toNat = from_.toNat / 32 + 1 := by
      rw [BitVec.toNat_add, startidx]
      apply Nat.mod_eq_of_lt
      have one : (1 : BitVec 32).toNat = 1 := rfl
      omega
    have apart : from_.toNat / 32 < stop.toNat / 32 := by
      simp only [u32Bits] at same
      omega
    have loop := popcount_loop_allocated words (from_ / 32 + 1)
    rw [if_neg spread, if_neg same, shift_allowed _ _ (by omega), Option.bind_some,
      popcount_and_allocated _ _ _ (by omega), Option.bind_some, shift_allowed _ _ (by omega),
      Option.bind_some, popcount_and_allocated _ _ _ (by omega), Option.bind_some,
      loop _ _ (by omega) (by omega), next, startidx, startbit, endidx, endbit]
    rw [BitVec.ofNat_add, BitVec.ofNat_add]
    rfl

theorem countbits_card (bitmap : Bitmap) (from_ stop : Nat) (le : from_ ≤ stop) :
    countbits bitmap from_ stop =
      ((Finset.Ico from_ stop).filter fun i => bitmap.has i = true).card := by
  have below (n : Nat) : bitmap.below n =
      ∑ i ∈ Finset.Ico 0 n, if bitmap.has i = true then 1 else 0 := by
    unfold Bitmap.below
    rw [Nat.count_eq_card_filter_range, Finset.card_filter, Finset.range_eq_Ico]
  have counted := countbits_below bitmap from_ stop le
  rw [below, below, ← Finset.sum_Ico_consecutive _ (Nat.zero_le from_) le] at counted
  rw [Finset.card_filter]
  omega

/-- The deletion bitmap is a set of indices: over an endless bitmap for every start, and
over the words that are allocated without a shift too far or an index outside. -/
theorem deletion_bitmap_set (ebpfLen : Nat) (words : Words)
    (allocated : words.length = ebpfLen / u32Bits + 2) :
    (∀ (bitmap : Bitmap) (fromidx count i : Nat), count < 32 →
      ((setbits bitmap fromidx count).has i = true ↔
        bitmap.has i = true ∨ fromidx ≤ i ∧ i < fromidx + count)) ∧
    (∀ fromidx count : BitVec 32, count.toNat < 32 →
      fromidx.toNat + count.toNat < u32Bits * (ebpfLen / u32Bits + 2) →
      ∃ after, Allocated.setbits words fromidx count = some after ∧
        after.length = words.length ∧ ∀ i, (after.bitmap.has i = true ↔
          words.bitmap.has i = true ∨
            fromidx.toNat ≤ i ∧ i < fromidx.toNat + count.toNat)) ∧
    (∀ from_ stop : BitVec 32, from_ ≤ stop →
      stop.toNat < u32Bits * (ebpfLen / u32Bits + 2) →
      ∃ sum, Allocated.countbits words from_ stop = some sum ∧ sum.toNat =
        ((Finset.Ico from_.toNat stop.toNat).filter fun i => words.bitmap.has i = true).card) := by
  have member (bitmap : Bitmap) (fromidx count i : Nat) (small : count < 32) :
      (setbits bitmap fromidx count).has i = true ↔
        bitmap.has i = true ∨ fromidx ≤ i ∧ i < fromidx + count := by
    rw [has_setbits _ _ _ _ small, Bool.or_eq_true, decide_eq_true_iff]
  rw [← allocated]
  refine ⟨member, ?_, ?_⟩
  · intro fromidx count small inside
    obtain ⟨after, done, length, bits⟩ := setbits_allocated words fromidx count small inside
    refine ⟨after, done, length, fun i => ?_⟩
    rw [bits]
    apply member _ _ _ _ small
  · intro from_ stop le inside
    have order : from_.toNat ≤ stop.toNat := le
    obtain ⟨sum, done, number⟩ := countbits_allocated words from_ stop order inside
    exact ⟨sum, done, by rw [number, countbits_card _ _ _ order]⟩

/-- Five indices from 30 on, across the end of the first of three words. -/
theorem deletion_bitmap_set_two_words :
    ∃ after, Allocated.setbits [7, 0, 0] 30 5 = some after ∧ after.length = 3 ∧
      after.bitmap.has 34 = true := by
  obtain ⟨_, stored, _⟩ := deletion_bitmap_set 40 [7, 0, 0] rfl
  obtain ⟨after, done, length, member⟩ := stored 30 5 (by decide) (by decide)
  exact ⟨after, done, length, (member 34).mpr (Or.inr (by decide))⟩

end Ceccomp
