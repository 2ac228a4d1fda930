import Mathlib.Data.Nat.Count

/-!
The deletion bitmap of `bpf_trans.c`: an array of 32-bit words, read as a set of
indices. `setbits` and `countbits` follow the source; the theorems say which set
they add to and which number they return.
-/

namespace Ceccomp

abbrev Bitmap := Nat → BitVec 32

def u32Bits : Nat := 32

/-- Index `i` is in the set. -/
def Bitmap.has (bitmap : Bitmap) (i : Nat) : Bool :=
  (bitmap (i / u32Bits)).getLsbD (i % u32Bits)

def lowMask (n : Nat) : BitVec 32 := (1#32 <<< n) - 1#32

def highMask (n : Nat) : BitVec 32 := BitVec.allOnes 32 <<< n

def Bitmap.orWord (bitmap : Bitmap) (idx : Nat) (mask : BitVec 32) : Bitmap :=
  Function.update bitmap idx (bitmap idx ||| mask)

def setbits (bitmap : Bitmap) (fromidx count : Nat) : Bitmap :=
  if count = 0 then bitmap
  else
    let mapidx := fromidx / u32Bits
    let frombit := fromidx % u32Bits
    if mapidx ≠ (fromidx + count) / u32Bits then
      -- count is always less than 32, so two words are enough
      (bitmap.orWord mapidx (highMask frombit)).orWord (mapidx + 1)
        (lowMask ((fromidx + count) % u32Bits))
    else bitmap.orWord mapidx (lowMask count <<< frombit)

def popcount (word : BitVec 32) : Nat := Nat.count (fun i => word.getLsbD i = true) 32

def popcountWords (bitmap : Bitmap) (idx : Nat) : Nat → Nat
  | 0 => 0
  | left + 1 => popcount (bitmap idx) + popcountWords bitmap (idx + 1) left

def countbits (bitmap : Bitmap) (from_ stop : Nat) : Nat :=
  let startidx := from_ / u32Bits
  let startbit := from_ % u32Bits
  let endidx := stop / u32Bits
  let endbit := stop % u32Bits
  if startidx = endidx then
    popcount (bitmap startidx &&& (lowMask (endbit - startbit) <<< startbit))
  else
    popcount (bitmap startidx &&& highMask startbit) + popcount (bitmap endidx &&& lowMask endbit)
      + popcountWords bitmap (startidx + 1) (endidx - (startidx + 1))

theorem low_mask_bit (n i : Nat) (small : n < 32) (inside : i < 32) :
    (lowMask n).getLsbD i = decide (i < n) := by
  have value : lowMask n = BitVec.ofNat 32 (2 ^ n - 1) := by
    apply BitVec.eq_of_toNat_eq
    have power : 2 ^ n < 2 ^ 32 := Nat.pow_lt_pow_right (by decide) small
    have positive : 0 < 2 ^ n := Nat.two_pow_pos n
    simp only [lowMask, BitVec.toNat_sub, BitVec.toNat_shiftLeft, BitVec.toNat_ofNat,
      Nat.shiftLeft_eq, Nat.reducePow, Nat.reduceMod, Nat.one_mul] at power ⊢
    rw [Nat.mod_eq_of_lt power]
    omega
  rw [value, BitVec.getLsbD_ofNat, Nat.testBit_two_pow_sub_one]
  simp [inside]

theorem high_mask_bit (n i : Nat) (inside : i < 32) :
    (highMask n).getLsbD i = decide (n ≤ i) := by
  simp only [highMask, BitVec.getLsbD_shiftLeft, BitVec.getLsbD_allOnes, inside, decide_true,
    Bool.true_and]
  by_cases below : i < n
  · simp [below, Nat.not_le.mpr below]
  · simp [below, Nat.not_lt.mp below, show i - n < 32 by omega]

theorem shifted_mask_bit (n s i : Nat) (small : n < 32) (inside : i < 32) :
    (lowMask n <<< s).getLsbD i = decide (s ≤ i ∧ i < s + n) := by
  simp only [BitVec.getLsbD_shiftLeft, inside, decide_true, Bool.true_and]
  by_cases below : i < s
  · simp [below, Nat.not_le.mpr below]
  · rw [low_mask_bit n (i - s) small (by omega)]
    have reached : s ≤ i := Nat.not_lt.mp below
    simp only [below, decide_false, Bool.not_false, Bool.true_and, reached, true_and]
    exact decide_eq_decide.mpr (by omega)

theorem has_or_word (bitmap : Bitmap) (idx : Nat) (mask : BitVec 32) (i : Nat) :
    (bitmap.orWord idx mask).has i =
      (bitmap.has i || (decide (i / 32 = idx) && mask.getLsbD (i % 32))) := by
  by_cases same : i / 32 = idx
  · subst same
    simp [Bitmap.has, Bitmap.orWord, u32Bits]
  · simp [Bitmap.has, Bitmap.orWord, u32Bits, same]

theorem has_setbits (bitmap : Bitmap) (fromidx count i : Nat) (small : count < 32) :
    (setbits bitmap fromidx count).has i =
      (bitmap.has i || decide (fromidx ≤ i ∧ i < fromidx + count)) := by
  unfold setbits
  have bound : i % 32 < 32 := Nat.mod_lt i (by decide)
  by_cases zero : count = 0
  · simp [zero]
  · rw [if_neg zero]
    by_cases spread : fromidx / u32Bits ≠ (fromidx + count) / u32Bits
    · rw [if_pos spread]
      simp only [u32Bits] at spread ⊢
      rw [has_or_word, has_or_word, high_mask_bit _ _ bound,
        low_mask_bit _ _ (Nat.mod_lt _ (by decide)) bound, Bool.or_assoc]
      congr 1
      rw [← Bool.decide_and, ← Bool.decide_and, ← Bool.decide_or]
      exact decide_eq_decide.mpr (by omega)
    · rw [if_neg spread]
      simp only [u32Bits] at spread ⊢
      rw [has_or_word, shifted_mask_bit _ _ _ small bound]
      congr 1
      rw [← Bool.decide_and]
      exact decide_eq_decide.mpr (by omega)

def Bitmap.below (bitmap : Bitmap) (n : Nat) : Nat := Nat.count (fun i => bitmap.has i = true) n

theorem below_add (bitmap : Bitmap) (word bits : Nat) (small : bits ≤ 32) :
    bitmap.below (32 * word + bits) = bitmap.below (32 * word) +
      Nat.count (fun i => (bitmap word).getLsbD i = true) bits := by
  unfold Bitmap.below
  rw [Nat.count_add]
  congr 1
  induction bits with
  | zero => simp
  | succ bits ih =>
      rw [Nat.count_succ, Nat.count_succ, ih (by omega)]
      have here : bitmap.has (32 * word + bits) = (bitmap word).getLsbD bits := by
        have idx : (32 * word + bits) / 32 = word := by omega
        have bit : (32 * word + bits) % 32 = bits := by omega
        simp only [Bitmap.has, u32Bits, idx, bit]
      rw [here]

theorem popcount_words_below (bitmap : Bitmap) (idx left : Nat) :
    bitmap.below (32 * idx) + popcountWords bitmap idx left = bitmap.below (32 * (idx + left)) := by
  induction left generalizing idx with
  | zero => simp [popcountWords]
  | succ left ih =>
      have word := below_add bitmap idx 32 (by omega)
      have rest := ih (idx + 1)
      rw [show 32 * (idx + 1) = 32 * idx + 32 by omega, word] at rest
      rw [show idx + (left + 1) = idx + 1 + left by omega, ← rest, popcountWords, popcount]
      omega

/-- The set bits of a word inside a window are those below its end less those
below its start. -/
theorem popcount_window (word mask : BitVec 32) (low high : Nat) (le : low ≤ high)
    (top : high ≤ 32) (window : ∀ i, i < 32 → mask.getLsbD i = decide (low ≤ i ∧ i < high)) :
    Nat.count (fun i => word.getLsbD i = true) low + popcount (word &&& mask) =
      Nat.count (fun i => word.getLsbD i = true) high := by
  -- bit by bit: below the window the mask hides everything, above it counts no more
  have upto (n : Nat) (inside : n ≤ 32) :
      Nat.count (fun i => (word &&& mask).getLsbD i = true) n +
        Nat.count (fun i => word.getLsbD i = true) (min n low) =
      Nat.count (fun i => word.getLsbD i = true) (min n high) := by
    induction n with
    | zero => simp
    | succ n ih =>
        have before := ih (by omega)
        rw [Nat.count_succ]
        have bit : (word &&& mask).getLsbD n =
            (word.getLsbD n && decide (low ≤ n ∧ n < high)) := by
          rw [BitVec.getLsbD_and, window n (by omega)]
        rw [bit]
        rcases Nat.lt_or_ge n low with early | late
        · have outside : ¬ (low ≤ n ∧ n < high) := by omega
          rw [show min (n + 1) low = n + 1 by omega, show min (n + 1) high = n + 1 by omega,
            Nat.count_succ]
          rw [show min n low = n by omega, show min n high = n by omega] at before
          simp only [outside, decide_false, Bool.and_false, Bool.false_eq_true, ↓reduceIte]
          omega
        · rcases Nat.lt_or_ge n high with inner | outer
          · rw [show min (n + 1) low = low by omega, show min (n + 1) high = n + 1 by omega,
              Nat.count_succ]
            rw [show min n low = low by omega, show min n high = n by omega] at before
            simp only [late, inner, and_self, decide_true, Bool.and_true]
            omega
          · have outside : ¬ (low ≤ n ∧ n < high) := by omega
            rw [show min (n + 1) low = low by omega, show min (n + 1) high = high by omega]
            rw [show min n low = low by omega, show min n high = high by omega] at before
            simp only [outside, decide_false, Bool.and_false, Bool.false_eq_true, ↓reduceIte]
            omega
  have whole := upto 32 (Nat.le_refl 32)
  rw [show min 32 low = low by omega, show min 32 high = high by omega] at whole
  rw [popcount, Nat.add_comm]
  exact whole

theorem countbits_below (bitmap : Bitmap) (from_ stop : Nat) (le : from_ ≤ stop) :
    bitmap.below from_ + countbits bitmap from_ stop = bitmap.below stop := by
  have start := below_add bitmap (from_ / 32) (from_ % 32) (by omega)
  have finish := below_add bitmap (stop / 32) (stop % 32) (by omega)
  rw [show 32 * (from_ / 32) + from_ % 32 = from_ by omega] at start
  rw [show 32 * (stop / 32) + stop % 32 = stop by omega] at finish
  have startBound : from_ % 32 < 32 := Nat.mod_lt _ (by decide)
  have endBound : stop % 32 < 32 := Nat.mod_lt _ (by decide)
  by_cases same : from_ / u32Bits = stop / u32Bits
  · simp only [countbits, if_pos same]
    simp only [u32Bits] at same ⊢
    have window := popcount_window (bitmap (from_ / 32))
      (lowMask (stop % 32 - from_ % 32) <<< (from_ % 32)) (from_ % 32) (stop % 32) (by omega)
      (by omega) (fun i inside => by
        rw [shifted_mask_bit _ _ _ (by omega) inside]
        exact decide_eq_decide.mpr (by omega))
    rw [← same] at finish
    omega
  · simp only [countbits, if_neg same]
    simp only [u32Bits] at same ⊢
    have head := popcount_window (bitmap (from_ / 32)) (highMask (from_ % 32)) (from_ % 32) 32
      (by omega) (by omega) (fun i inside => by
        rw [high_mask_bit _ _ inside]
        exact decide_eq_decide.mpr (by omega))
    have tail := popcount_window (bitmap (stop / 32)) (lowMask (stop % 32)) 0 (stop % 32)
      (by omega) (by omega) (fun i inside => by
        rw [low_mask_bit _ _ endBound inside]
        exact decide_eq_decide.mpr (by omega))
    have words := popcount_words_below bitmap (from_ / 32 + 1) (stop / 32 - (from_ / 32 + 1))
    have full := below_add bitmap (from_ / 32) 32 (by omega)
    rw [show 32 * (from_ / 32 + 1) = 32 * (from_ / 32) + 32 by omega, full,
      show from_ / 32 + 1 + (stop / 32 - (from_ / 32 + 1)) = stop / 32 by omega] at words
    simp only [Nat.count_zero] at tail
    omega

end Ceccomp
