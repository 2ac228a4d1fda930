import Ceccomp.Disasm.Formatter
import Ceccomp.Text.Lexemes

/-!
Numbers in the text: what the formatter prints is read back as the same number, and so
is a number that was scanned before.
-/

namespace Ceccomp

/-- Wherever the word stands on its own, it is the number `data`. -/
def NumberWord (word : Text) (data : Word) : Prop :=
  ∀ rest, Stops rest → Lexeme .number data word rest

theorem letter_identifier (c low high : Char) (low_ : low ≤ c) (high_ : c ≤ high)
    (letters : 'a' ≤ low ∧ high ≤ 'z' ∨ 'A' ≤ low ∧ high ≤ 'Z') : isIdentifier c = true := by
  have alpha : c.isAlpha = true := by
    rcases letters with ⟨first, last⟩ | ⟨first, last⟩
    · have lower : c.isLower = true := Bool.and_eq_true_iff.mpr
        ⟨decide_eq_true (Char.le_trans first low_), decide_eq_true (Char.le_trans high_ last)⟩
      exact Bool.or_eq_true_iff.mpr (Or.inr lower)
    · have upper : c.isUpper = true :=
        decide_eq_true ⟨Char.le_trans first low_, Char.le_trans high_ last⟩
      exact Bool.or_eq_true_iff.mpr (Or.inl upper)
  simp [isIdentifier, Char.isAlphanum, alpha]

theorem digit_value_identifier (c : Char) (value : Nat) (digit : digitValue c = some value) :
    isIdentifier c = true := by
  unfold digitValue at digit
  split at digit
  · next plain => simp [isIdentifier, Char.isAlphanum, plain]
  · split at digit
    · next lower => exact letter_identifier c 'a' 'f' lower.1 lower.2 (by decide)
    · split at digit
      · next upper => exact letter_identifier c 'A' 'F' upper.1 upper.2 (by decide)
      · cases digit

theorem digit_identifier (base : Nat) (c : Char) (digit : isDigitIn base c = true) :
    isIdentifier c = true := by
  unfold isDigitIn at digit
  split at digit
  · next value found => exact digit_value_identifier c value found
  · cases digit

theorem digits_run (base : Nat) (digits rest : Text)
    (all : ∀ c ∈ digits, isDigitIn base c = true) (stops : Stops rest) :
    Run (isDigitIn base) digits rest :=
  { all
    ends := fun c head => by
      by_contra digit
      have inside := digit_identifier base c (by simpa using digit)
      rw [stops c head] at inside
      cases inside }

theorem digit_char_value : ∀ digit < 16, digitValue (Nat.digitChar digit) = some digit := by
  decide

theorem digits_value_snoc (base : Nat) (digits : Text) (c : Char) :
    digitsValue base (digits ++ [c]) = digitsValue base digits * base + (digitValue c).getD 0 := by
  simp [digitsValue]

theorem to_digits_value (base : Nat) (two : 1 < base) (hex : base ≤ 16) (n : Nat) :
    digitsValue base (Nat.toDigits base n) = n := by
  induction n using Nat.strong_induction_on with
  | _ n ih =>
      by_cases small : n < base
      · rw [Nat.toDigits_of_lt_base small]
        have value := digit_char_value n (Nat.lt_of_lt_of_le small hex)
        simp [digitsValue, value]
      · have many := Nat.le_of_not_lt small
        have less : n / base < n := Nat.div_lt_self (by omega) two
        have value := digit_char_value (n % base)
          (Nat.lt_of_lt_of_le (Nat.mod_lt n (by omega)) hex)
        rw [Nat.toDigits_of_base_le two many, digits_value_snoc, ih _ less, value, Option.getD_some]
        exact Nat.div_add_mod' n base

theorem to_digits_all (base : Nat) (two : 1 < base) (hex : base ≤ 16) (n : Nat) :
    ∀ c ∈ Nat.toDigits base n, isDigitIn base c = true := by
  have own (digit : Nat) (small : digit < base) : isDigitIn base (Nat.digitChar digit) = true := by
    unfold isDigitIn
    rw [digit_char_value digit (Nat.lt_of_lt_of_le small hex)]
    exact decide_eq_true small
  induction n using Nat.strong_induction_on with
  | _ n ih =>
      by_cases small : n < base
      · rw [Nat.toDigits_of_lt_base small]
        intro c member
        rw [List.mem_singleton.mp member]
        exact own n small
      · have many := Nat.le_of_not_lt small
        have less : n / base < n := Nat.div_lt_self (by omega) two
        rw [Nat.toDigits_of_base_le two many]
        intro c member
        rcases List.mem_append.mp member with before | last
        · exact ih _ less c before
        · rw [List.mem_singleton.mp last]
          exact own _ (Nat.mod_lt n (by omega))

theorem to_digits_first (base : Nat) (two : 1 < base) (n : Nat) (some_ : n ≠ 0) :
    ∃ c later, Nat.toDigits base n = c :: later ∧ c ≠ '0' := by
  induction n using Nat.strong_induction_on with
  | _ n ih =>
      by_cases small : n < base
      · rw [Nat.toDigits_of_lt_base small]
        exact ⟨_, [], rfl, by simpa using some_⟩
      · have many := Nat.le_of_not_lt small
        have less : n / base < n := Nat.div_lt_self (by omega) two
        obtain ⟨c, later, same, first⟩ := ih _ less (by
          have positive := Nat.div_pos many (by omega)
          omega)
        rw [Nat.toDigits_of_base_le two many, same]
        exact ⟨c, _, rfl, first⟩

section Strtoul

variable {digits rest : Text}

theorem strtoul_hex (x : Char) (isX : x = 'x' ∨ x = 'X') (some_ : digits ≠ [])
    (all : ∀ c ∈ digits, isDigitIn 16 c = true) (stops : Stops rest) :
    strtoul ('0' :: x :: digits ++ rest) = (digitsValue 16 digits, digits.length + 2) := by
  obtain ⟨first, later, rfl⟩ := List.exists_cons_of_ne_nil some_
  have hex : isDigitIn 16 first = true := all first List.mem_cons_self
  have run := digits_run 16 (first :: later) rest all stops
  have taken : (first :: later ++ rest).takeWhile (isDigitIn 16) = first :: later := run.take_while
  have asked : (peekAt ('0' :: x :: (first :: later) ++ rest) 1 = 'x' ∨
      peekAt ('0' :: x :: (first :: later) ++ rest) 1 = 'X') ∧
      isDigitIn 16 (peekAt ('0' :: x :: (first :: later) ++ rest) 2) = true := ⟨isX, hex⟩
  have zero : peekAt ('0' :: x :: (first :: later) ++ rest) 0 = '0' := rfl
  have behind : ('0' :: x :: (first :: later) ++ rest).drop 2 = first :: later ++ rest := rfl
  unfold strtoul
  dsimp only
  rw [if_pos zero, if_pos asked, behind, taken]

theorem strtoul_octal (all : ∀ c ∈ '0' :: digits, isDigitIn 8 c = true) (stops : Stops rest) :
    strtoul ('0' :: digits ++ rest) = (digitsValue 8 ('0' :: digits), digits.length + 1) := by
  have run := digits_run 8 ('0' :: digits) rest all stops
  have noX : ¬ ((peekAt ('0' :: digits ++ rest) 1 = 'x' ∨ peekAt ('0' :: digits ++ rest) 1 = 'X') ∧
      isDigitIn 16 (peekAt ('0' :: digits ++ rest) 2) = true) := by
    rintro ⟨isX, _⟩
    cases digits with
    | nil =>
        cases rest with
        | nil =>
            have no : ¬ (('\n' : Char) = 'x' ∨ ('\n' : Char) = 'X') := by decide
            exact no isX
        | cons c later =>
            have own : c = 'x' ∨ c = 'X' := isX
            have stop := stops c rfl
            rcases own with rfl | rfl <;> revert stop <;> decide
    | cons c later =>
        have own : c = 'x' ∨ c = 'X' := isX
        have octal := all c (List.mem_cons_of_mem _ List.mem_cons_self)
        rcases own with rfl | rfl <;> revert octal <;> decide
  have zero : peekAt ('0' :: digits ++ rest) 0 = '0' := rfl
  unfold strtoul
  dsimp only
  rw [if_pos zero, if_neg noX, run.take_while, List.length_cons]

theorem strtoul_decimal (some_ : digits ≠ []) (first : peekAt digits 0 ≠ '0')
    (all : ∀ c ∈ digits, isDigitIn 10 c = true) (stops : Stops rest) :
    strtoul (digits ++ rest) = (digitsValue 10 digits, digits.length) := by
  have run := digits_run 10 digits rest all stops
  have noZero : peekAt (digits ++ rest) 0 ≠ '0' := by
    rw [peek_word some_]
    exact first
  unfold strtoul
  dsimp only
  rw [if_neg noZero, run.take_while]

end Strtoul

theorem digit_only (c : Char) (digit : c.isDigit = true) :
    c.isUpper = false ∧ c.isLower = false ∧ isSpace c = false ∧ c ≠ '#' := by
  have high : c.val ≤ '9'.val := of_decide_eq_true (Bool.and_eq_true_iff.mp digit).2
  have below (low : Char) (more : ¬ low.val ≤ '9'.val) : ¬ low.val ≤ c.val :=
    fun less => more (UInt32.le_trans less high)
  refine ⟨?_, ?_, ?_, ?_⟩
  · rw [Bool.eq_false_iff]
    intro upper
    exact below 'A' (by decide) (of_decide_eq_true upper).1
  · rw [Bool.eq_false_iff]
    intro lower
    exact below 'a' (by decide) (of_decide_eq_true (Bool.and_eq_true_iff.mp lower).1)
  · rw [Bool.eq_false_iff]
    intro space
    simp only [isSpace, Bool.or_eq_true, beq_iff_eq] at space
    rcases space with (((rfl | rfl) | rfl) | rfl) | rfl <;> revert digit <;> decide
  · rintro rfl
    revert digit
    decide

/-- A word that starts with a digit and that `strtoul` reads whole, if it fits 32 bits. -/
theorem number_lexeme (word rest : Text) (value : Nat) (digit : (peekAt word 0).isDigit = true)
    (read : strtoul (word ++ rest) = (value, word.length)) (fits : value < 2 ^ 32) :
    Lexeme .number (BitVec.ofNat 32 value) word rest := by
  cases word with
  | nil => exact absurd digit (by decide)
  | cons c later =>
      have own : c.isDigit = true := digit
      have first : peekAt (c :: later ++ rest) 0 = c := rfl
      obtain ⟨upper, lower, space, comment⟩ := digit_only c own
      have noAlpha : (c.isUpper || c.isLower) = false := by rw [upper, lower, Bool.or_false]
      have alpha : c.isAlpha = false := noAlpha
      have small : ¬ 2 ^ 32 ≤ value := Nat.not_le.mpr fits
      constructor
      · exact ⟨c, rfl, space, comment⟩
      · unfold scanLexeme
        rw [first, read]
        dsimp only
        rw [lower, upper, alpha, own]
        simp only [Bool.false_eq_true, if_false, if_true, if_neg small]

theorem hex_word (data : Word) : NumberWord ('0' :: 'x' :: hexText data.toNat) data := by
  intro rest stops
  have read := strtoul_hex 'x' (Or.inl rfl) (Nat.toDigits_ne_nil)
    (to_digits_all 16 (by decide) (by decide) data.toNat) stops
  rw [to_digits_value 16 (by decide) (by decide)] at read
  have lexeme := number_lexeme ('0' :: 'x' :: hexText data.toNat) rest data.toNat (by rfl) read
    data.isLt
  rwa [BitVec.ofNat_toNat, BitVec.setWidth_eq] at lexeme

theorem dec_word (data : Word) : NumberWord (decText data.toNat) data := by
  intro rest stops
  have value := to_digits_value 10 (by decide) (by decide) data.toNat
  have all := to_digits_all 10 (by decide) (by decide) data.toNat
  have digit : (peekAt (decText data.toNat) 0).isDigit = true := by
    cases shape : decText data.toNat with
    | nil => exact absurd shape Nat.toDigits_ne_nil
    | cons c later =>
        have member : c ∈ Nat.toDigits 10 data.toNat := by
          change c ∈ decText data.toNat
          rw [shape]
          exact List.mem_cons_self
        exact Nat.isDigit_of_mem_toDigits (by decide) (by decide) member
  have read : strtoul (decText data.toNat ++ rest) = (data.toNat, (decText data.toNat).length) := by
    by_cases zero : data.toNat = 0
    · have octal := @strtoul_octal [] rest (by simp; decide) stops
      rw [zero]
      exact octal
    · obtain ⟨c, later, shape, first⟩ := to_digits_first 10 (by decide) data.toNat zero
      have noZero : peekAt (decText data.toNat) 0 ≠ '0' := by
        unfold decText
        rw [shape]
        exact first
      have decimal := strtoul_decimal (Nat.toDigits_ne_nil) noZero all stops
      rw [value] at decimal
      exact decimal
  have lexeme := number_lexeme (decText data.toNat) rest data.toNat digit read data.isLt
  rwa [BitVec.ofNat_toNat, BitVec.setWidth_eq] at lexeme

theorem strtoul_cases (text : Text) (digit : (peekAt text 0).isDigit = true) :
    (∃ x digits, (x = 'x' ∨ x = 'X') ∧ digits ≠ [] ∧ (∀ c ∈ digits, isDigitIn 16 c = true) ∧
      strtoul text = (digitsValue 16 digits, digits.length + 2) ∧
      text.take (digits.length + 2) = '0' :: x :: digits) ∨
    (∃ digits, (∀ c ∈ '0' :: digits, isDigitIn 8 c = true) ∧
      strtoul text = (digitsValue 8 ('0' :: digits), digits.length + 1) ∧
      text.take (digits.length + 1) = '0' :: digits) ∨
    ∃ digits, digits ≠ [] ∧ peekAt digits 0 ≠ '0' ∧ (∀ c ∈ digits, isDigitIn 10 c = true) ∧
      strtoul text = (digitsValue 10 digits, digits.length) ∧ text.take digits.length = digits := by
  cases text with
  | nil => exact absurd digit (by decide)
  | cons c later =>
      have inside (base : Nat) (text : Text) :
          ∀ c ∈ text.takeWhile (isDigitIn base), isDigitIn base c = true :=
        fun c => List.mem_takeWhile_imp
      unfold strtoul
      dsimp only
      -- the base is chosen from the first characters: 0x, 0 or a digit
      by_cases zero : peekAt (c :: later) 0 = '0'
      · have same : c = '0' := zero
        subst same
        rw [if_pos zero]
        by_cases hex : (peekAt ('0' :: later) 1 = 'x' ∨ peekAt ('0' :: later) 1 = 'X') ∧
            isDigitIn 16 (peekAt ('0' :: later) 2) = true
        · left
          rw [if_pos hex]
          cases later with
          | nil => exact absurd hex.2 (by decide)
          | cons x tail =>
              have first : isDigitIn 16 (peekAt tail 0) = true := hex.2
              refine ⟨x, tail.takeWhile (isDigitIn 16), hex.1, ?_, inside 16 tail, rfl, ?_⟩
              · cases tail with
                | nil => exact absurd first (by decide)
                | cons d rest =>
                    have own : isDigitIn 16 d = true := first
                    simp [own]
              · rw [List.take_succ_cons, List.take_succ_cons, take_while_taken]
        · right; left
          rw [if_neg hex]
          have octal : isDigitIn 8 '0' = true := by decide
          have whole : ('0' :: later).takeWhile (isDigitIn 8) =
              '0' :: later.takeWhile (isDigitIn 8) := by
            rw [List.takeWhile_cons, if_pos octal]
          rw [whole]
          refine ⟨later.takeWhile (isDigitIn 8), ?_, rfl, ?_⟩
          · rw [← whole]
            exact inside 8 _
          · rw [List.take_succ_cons, take_while_taken]
      · right; right
        rw [if_neg zero]
        have own : isDigitIn 10 c = true := digit_in_ten c digit
        have whole : (c :: later).takeWhile (isDigitIn 10) = c :: later.takeWhile (isDigitIn 10) := by
          rw [List.takeWhile_cons, if_pos own]
        refine ⟨(c :: later).takeWhile (isDigitIn 10), ?_, ?_, inside 10 _, rfl, take_while_taken _ _⟩
        · simp [whole]
        · rw [whole]
          exact zero

theorem strtoul_again (text : Text) (digit : (peekAt text 0).isDigit = true) (rest : Text)
    (stops : Stops rest) :
    strtoul (text.take (strtoul text).2 ++ rest) =
      ((strtoul text).1, (text.take (strtoul text).2).length) := by
  rcases strtoul_cases text digit with ⟨x, digits, isX, some_, all, read, taken⟩ |
    ⟨digits, all, read, taken⟩ | ⟨digits, some_, first, all, read, taken⟩
  · rw [read]
    dsimp only
    rw [taken]
    exact strtoul_hex x isX some_ all stops
  · rw [read]
    dsimp only
    rw [taken]
    exact strtoul_octal all stops
  · rw [read]
    dsimp only
    rw [taken]
    exact strtoul_decimal some_ first all stops

theorem number_again {text : Text} {type : TokenType} {len : Nat} {data : Word}
    (spelled : Spelled text type len data) (kind : type = .number) :
    NumberWord (text.take len) data := by
  cases spelled with
  | reserved _ member begins =>
      rw [kind] at member
      exact absurd member (by decide)
  | word letter free => rcases scan_word_type text with other | other <;> rw [other] at kind <;> cases kind
  | number digit fits =>
      intro rest stops
      have read := strtoul_again text digit rest stops
      have starts : (peekAt (text.take (strtoul text).2) 0).isDigit = true := by
        have positive := strtoul_length text (by
          rintro rfl
          exact absurd digit (by decide)) digit
        cases text with
        | nil => exact absurd digit (by decide)
        | cons c later =>
            obtain ⟨n, same⟩ := Nat.exists_eq_succ_of_ne_zero (Nat.pos_iff_ne_zero.mp positive)
            rw [same, List.take_succ_cons]
            exact digit
      exact number_lexeme _ rest _ starts read fits
  | overflow => cases kind
  | punct _ _ scanned =>
      have foreign := punct_foreign text type len scanned
      rw [kind] at foreign
      exact absurd (by decide) foreign

end Ceccomp
