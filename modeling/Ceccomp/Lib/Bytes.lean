import Mathlib.Algebra.Group.Nat.Defs

/-!
Numbers as bytes, least or most significant first. A number of several words is laid out
word by word, and an array of words is read back word by word.
-/

namespace Bytes

inductive Order where
  | little | big
  deriving DecidableEq, Repr

def digits : Nat → Nat → List (BitVec 8)
  | 0, _ => []
  | count + 1, value => BitVec.ofNat 8 value :: digits count (value / 256)

def number : List (BitVec 8) → Nat
  | [] => 0
  | byte :: rest => byte.toNat + 256 * number rest

def Order.encode (order : Order) (count value : Nat) : List (BitVec 8) :=
  match order with
  | .little => digits count value
  | .big => (digits count value).reverse

def Order.decode (order : Order) (bytes : List (BitVec 8)) : Nat :=
  match order with
  | .little => number bytes
  | .big => number bytes.reverse

/-- The number at an offset, if that many bytes are there. -/
def Order.read (order : Order) (count : Nat) (bytes : List (BitVec 8)) (offset : Nat) : Option Nat :=
  let chunk := (bytes.drop offset).take count
  if chunk.length = count then some (order.decode chunk) else none

@[simp] theorem digits_length (count value : Nat) : (digits count value).length = count := by
  induction count generalizing value with
  | zero => rfl
  | succ count ih => rw [digits, List.length_cons, ih]

@[simp] theorem encode_length (order : Order) (count value : Nat) :
    (order.encode count value).length = count := by
  cases order with
  | little => exact digits_length count value
  | big => rw [Order.encode, List.length_reverse, digits_length]

theorem number_digits (count value : Nat) : number (digits count value) = value % 256 ^ count := by
  induction count generalizing value with
  | zero => rw [digits, number, Nat.pow_zero, Nat.mod_one]
  | succ count ih =>
      have width : 256 ^ (count + 1) = 256 * 256 ^ count := Nat.pow_succ'
      rw [digits, number, ih, BitVec.toNat_ofNat, width, Nat.mod_mul]

theorem decode_encode (order : Order) (count value : Nat) :
    order.decode (order.encode count value) = value % 256 ^ count := by
  cases order with
  | little => exact number_digits count value
  | big => rw [Order.decode, Order.encode, List.reverse_reverse, number_digits]

theorem digits_number (bytes : List (BitVec 8)) : digits bytes.length (number bytes) = bytes := by
  induction bytes with
  | nil => rfl
  | cons byte rest ih =>
      have small : byte.toNat < 256 := byte.isLt
      have first : BitVec.ofNat 8 (byte.toNat + 256 * number rest) = byte := by
        apply BitVec.eq_of_toNat_eq
        rw [BitVec.toNat_ofNat, Nat.add_mul_mod_self_left, Nat.mod_eq_of_lt small]
      have later : (byte.toNat + 256 * number rest) / 256 = number rest := by
        rw [Nat.add_mul_div_left _ _ (by decide), Nat.div_eq_of_lt small, Nat.zero_add]
      rw [List.length_cons, number, digits, first, later, ih]

theorem encode_decode (order : Order) (bytes : List (BitVec 8)) :
    order.encode bytes.length (order.decode bytes) = bytes := by
  cases order with
  | little => exact digits_number bytes
  | big =>
      have back := digits_number bytes.reverse
      rw [List.length_reverse] at back
      rw [Order.encode, Order.decode, back, List.reverse_reverse]

theorem digits_add (low high value : Nat) :
    digits (low + high) value = digits low value ++ digits high (value / 256 ^ low) := by
  induction low generalizing value with
  | zero => rw [Nat.zero_add, digits, List.nil_append, Nat.pow_zero, Nat.div_one]
  | succ low ih =>
      rw [Nat.succ_add, digits, digits, ih, List.cons_append, Nat.div_div_eq_div_mul, Nat.pow_succ,
        Nat.mul_comm 256]

theorem encode_little_add (count value : Nat) :
    Order.little.encode (count + count) value =
      Order.little.encode count value ++ Order.little.encode count (value / 256 ^ count) :=
  digits_add count count value

theorem encode_big_add (count value : Nat) :
    Order.big.encode (count + count) value =
      Order.big.encode count (value / 256 ^ count) ++ Order.big.encode count value := by
  rw [Order.encode, digits_add, List.reverse_append]
  rfl

theorem digits_mod (count value : Nat) : digits count (value % 256 ^ count) = digits count value := by
  induction count generalizing value with
  | zero => rfl
  | succ count ih =>
      have first : BitVec.ofNat 8 (value % 256 ^ (count + 1)) = BitVec.ofNat 8 value := by
        apply BitVec.eq_of_toNat_eq
        rw [BitVec.toNat_ofNat, BitVec.toNat_ofNat]
        exact Nat.mod_mod_of_dvd value ⟨256 ^ count, Nat.pow_succ'⟩
      have later : value % 256 ^ (count + 1) / 256 = value / 256 % 256 ^ count := by
        rw [Nat.pow_succ', Nat.mod_mul_right_div_self]
      rw [digits, digits, first, later, ih]

theorem encode_mod (order : Order) (count value : Nat) :
    order.encode count (value % 256 ^ count) = order.encode count value := by
  cases order with
  | little => exact digits_mod count value
  | big => rw [Order.encode, Order.encode, digits_mod]

theorem read_words (order : Order) (count : Nat) (words : List Nat) (some_ : 0 < count)
    (small : ∀ word ∈ words, word < 256 ^ count) (idx : Nat) :
    order.read count (words.flatMap (order.encode count)) (count * idx) = words[idx]? := by
  induction words generalizing idx with
  | nil =>
      simp [Order.read]
      omega
  | cons word rest ih =>
      rw [List.forall_mem_cons] at small
      cases idx with
      | zero =>
          have chunk : (order.encode count word ++ rest.flatMap (order.encode count)).take count =
              order.encode count word := by
            rw [List.take_append_of_le_length (by simp), List.take_of_length_le (by simp)]
          rw [List.flatMap_cons, Order.read, Nat.mul_zero, List.drop_zero, chunk]
          simp [decode_encode, Nat.mod_eq_of_lt small.1]
      | succ idx =>
          have later := ih small.2 idx
          have skip : (order.encode count word ++ rest.flatMap (order.encode count)).drop
              (count * (idx + 1)) = (rest.flatMap (order.encode count)).drop (count * idx) := by
            have whole : (order.encode count word).drop count = [] :=
              List.drop_of_length_le (Nat.le_of_eq (encode_length order count word))
            rw [Nat.mul_succ, Nat.add_comm, ← List.drop_drop,
              List.drop_append_of_le_length (Nat.le_of_eq (encode_length order count word).symm), whole,
              List.nil_append]
          rw [List.flatMap_cons, Order.read, skip, List.getElem?_cons_succ]
          exact later

def items (size : Nat) : Nat → List (BitVec 8) → List (List (BitVec 8))
  | 0, _ => []
  | count + 1, bytes => bytes.take size :: items size count (bytes.drop size)

theorem items_append {Item : Type*} (layout : Item → List (BitVec 8)) (size : Nat)
    (sized : ∀ item, (layout item).length = size) (array : List Item) (behind : List (BitVec 8)) :
    items size array.length (array.flatMap layout ++ behind) = array.map layout := by
  induction array with
  | nil => rfl
  | cons item array ih =>
      have front : (layout item).length = size := sized item
      rw [List.flatMap_cons, List.append_assoc, List.length_cons, items, List.map_cons,
        List.take_append_of_le_length (Nat.le_of_eq front.symm),
        List.take_of_length_le (Nat.le_of_eq front),
        List.drop_append_of_le_length (Nat.le_of_eq front.symm),
        List.drop_of_length_le (Nat.le_of_eq front), List.nil_append, ih]

theorem items_length (size count : Nat) (bytes : List (BitVec 8))
    (enough : size * count ≤ bytes.length) (item : List (BitVec 8))
    (member : item ∈ items size count bytes) : item.length = size := by
  induction count generalizing bytes with
  | zero => cases member
  | succ count ih =>
      rw [Nat.mul_succ] at enough
      rcases List.mem_cons.mp member with rfl | later
      · rw [List.length_take]
        omega
      · refine ih (bytes.drop size) ?_ later
        rw [List.length_drop]
        omega

theorem flat_map_length {Item Cell : Type*} (layout : Item → List Cell) (size : Nat)
    (sized : ∀ item, (layout item).length = size) (array : List Item) :
    (array.flatMap layout).length = size * array.length := by
  induction array with
  | nil => rfl
  | cons item array ih =>
      rw [List.flatMap_cons, List.length_append, sized, ih, List.length_cons, Nat.mul_succ,
        Nat.add_comm]

end Bytes
