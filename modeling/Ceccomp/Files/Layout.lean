import Ceccomp.Lib.Bytes
import Ceccomp.Ebpf.Translate
import Ceccomp.Emu.Endian
import Mathlib.Tactic.IntervalCases

/-!
Filters and eBPF instructions as bytes of memory and of files. A file is in the byte order
of its target, memory in that of the host; `utils/reverse_endian.h` turns one into the other.
-/

namespace Ceccomp

open Bytes (Order digits number)

abbrev Byte := BitVec 8

def bswap16 (x : BitVec 16) : BitVec 16 := (x >>> 8) &&& 0xff ||| (x &&& 0xff) <<< 8

def bswap32 (x : Word) : Word :=
  (x &&& 0xff000000) >>> 24 ||| (x &&& 0x00ff0000) >>> 8 ||| (x &&& 0x0000ff00) <<< 8 |||
    (x &&& 0x000000ff) <<< 24

def needReverseEndian (host : Order) (targetScmpArch : Word) : Bool :=
  match host with
  | .big => targetScmpArch &&& auditArchLe ≠ 0
  | .little => targetScmpArch &&& auditArchLe = 0

def reverseEndian (f : Filter) : Filter := { f with code := bswap16 f.code, k := bswap32 f.k }

def reverseEbpfEndian (insn : BpfInsn) : BpfInsn :=
  { insn with
    off := bswap16 insn.off
    imm := bswap32 insn.imm
    dstReg := insn.srcReg
    srcReg := insn.dstReg }

/-- `struct sock_filter` in memory. -/
def Filter.bytes (order : Order) (f : Filter) : List Byte :=
  order.encode 2 f.code.toNat ++ [f.jt, f.jf] ++ order.encode 4 f.k.toNat

/-- The byte of the two registers: the first bit field takes the low bits of a byte on a
little-endian machine, the high ones on a big-endian. -/
def BpfInsn.regs (order : Order) (insn : BpfInsn) : Byte :=
  match order with
  | .little => insn.srcReg ++ insn.dstReg
  | .big => insn.dstReg ++ insn.srcReg

/-- `struct bpf_insn` in memory. -/
def BpfInsn.bytes (order : Order) (insn : BpfInsn) : List Byte :=
  [insn.code, insn.regs order] ++ order.encode 2 insn.off.toNat ++ order.encode 4 insn.imm.toNat

def Filter.ofBytes (order : Order) (bytes : List Byte) : Filter :=
  { code := BitVec.ofNat 16 (order.decode (bytes.take 2))
    jt := bytes.getD 2 0
    jf := bytes.getD 3 0
    k := BitVec.ofNat 32 (order.decode ((bytes.drop 4).take 4)) }

def BpfInsn.ofBytes (order : Order) (bytes : List Byte) : BpfInsn :=
  let regs := bytes.getD 1 0
  let low := regs.extractLsb' 0 4
  let high := regs.extractLsb' 4 4
  { code := bytes.getD 0 0
    dstReg := match order with | .little => low | .big => high
    srcReg := match order with | .little => high | .big => low
    off := BitVec.ofNat 16 (order.decode ((bytes.drop 2).take 2))
    imm := BitVec.ofNat 32 (order.decode ((bytes.drop 4).take 4)) }

def swapped : Order → Order
  | .little => .big
  | .big => .little

theorem need_reverse_iff (host : Order) (scmpArch : Word) :
    needReverseEndian host scmpArch = true ↔ byteOrder scmpArch = swapped host := by
  unfold needReverseEndian byteOrder
  by_cases little : scmpArch &&& auditArchLe = 0
  · cases host <;> simp [little, swapped]
  · cases host <;> simp [swapped]

theorem swapped_swapped (order : Order) : swapped (swapped order) = order := by
  cases order <;> rfl

theorem same_order (host : Order) (scmpArch : Word)
    (keeps : ¬ needReverseEndian host scmpArch = true) : byteOrder scmpArch = host := by
  rw [need_reverse_iff] at keeps
  cases host <;> cases target : byteOrder scmpArch <;> simp_all [swapped]

theorem digits_half (x : BitVec 16) :
    digits 2 x.toNat = [x.extractLsb' 0 8, x.extractLsb' 8 8] := by
  simp only [digits, List.cons.injEq, and_true]
  constructor
  · apply BitVec.eq_of_toNat_eq
    simp
  · apply BitVec.eq_of_toNat_eq
    simp [Nat.shiftRight_eq_div_pow]

theorem digits_word (x : Word) :
    digits 4 x.toNat =
      [x.extractLsb' 0 8, x.extractLsb' 8 8, x.extractLsb' 16 8, x.extractLsb' 24 8] := by
  simp only [digits, List.cons.injEq, and_true, Nat.div_div_eq_div_mul]
  constructor
  · apply BitVec.eq_of_toNat_eq
    simp
  constructor
  · apply BitVec.eq_of_toNat_eq
    simp [Nat.shiftRight_eq_div_pow]
  constructor
  · apply BitVec.eq_of_toNat_eq
    simp [Nat.shiftRight_eq_div_pow]
  · apply BitVec.eq_of_toNat_eq
    simp [Nat.shiftRight_eq_div_pow]

theorem bswap16_bytes (x : BitVec 16) :
    (bswap16 x).extractLsb' 0 8 = x.extractLsb' 8 8 ∧
      (bswap16 x).extractLsb' 8 8 = x.extractLsb' 0 8 := by
  constructor
  · apply BitVec.eq_of_getLsbD_eq
    intro j inside
    interval_cases j <;> simp [bswap16]
  · apply BitVec.eq_of_getLsbD_eq
    intro j inside
    interval_cases j <;> simp [bswap16]

theorem bswap32_bytes (x : Word) :
    (bswap32 x).extractLsb' 0 8 = x.extractLsb' 24 8 ∧
      (bswap32 x).extractLsb' 8 8 = x.extractLsb' 16 8 ∧
      (bswap32 x).extractLsb' 16 8 = x.extractLsb' 8 8 ∧
      (bswap32 x).extractLsb' 24 8 = x.extractLsb' 0 8 := by
  refine ⟨?_, ?_, ?_, ?_⟩
  all_goals
    apply BitVec.eq_of_getLsbD_eq
    intro j inside
    interval_cases j <;> simp [bswap32]

theorem bswap16_encode (order : Order) (x : BitVec 16) :
    order.encode 2 (bswap16 x).toNat = (swapped order).encode 2 x.toNat := by
  obtain ⟨low, high⟩ := bswap16_bytes x
  cases order with
  | little => rw [Order.encode, swapped, Order.encode, digits_half, digits_half, low, high]; rfl
  | big => rw [Order.encode, swapped, Order.encode, digits_half, digits_half, low, high]; rfl

theorem bswap32_encode (order : Order) (x : Word) :
    order.encode 4 (bswap32 x).toNat = (swapped order).encode 4 x.toNat := by
  obtain ⟨first, second, third, fourth⟩ := bswap32_bytes x
  cases order with
  | little =>
      rw [Order.encode, swapped, Order.encode, digits_word, digits_word, first, second, third,
        fourth]
      rfl
  | big =>
      rw [Order.encode, swapped, Order.encode, digits_word, digits_word, first, second, third,
        fourth]
      rfl

theorem reverse_endian_bytes (order : Order) (f : Filter) :
    (reverseEndian f).bytes order = f.bytes (swapped order) := by
  rw [Filter.bytes, reverseEndian, bswap16_encode, bswap32_encode, Filter.bytes]

theorem reverse_ebpf_endian_bytes (order : Order) (insn : BpfInsn) :
    (reverseEbpfEndian insn).bytes order = insn.bytes (swapped order) := by
  have regs : (reverseEbpfEndian insn).regs order = insn.regs (swapped order) := by
    cases order <;> rfl
  rw [BpfInsn.bytes, regs, reverseEbpfEndian, bswap16_encode, bswap32_encode, BpfInsn.bytes]

@[simp] theorem filter_bytes_length (order : Order) (f : Filter) : (f.bytes order).length = 8 := by
  simp [Filter.bytes]

@[simp] theorem insn_bytes_length (order : Order) (insn : BpfInsn) :
    (insn.bytes order).length = 8 := by
  simp [BpfInsn.bytes]

theorem decode_half (order : Order) (x : BitVec 16) :
    BitVec.ofNat 16 (order.decode (order.encode 2 x.toNat)) = x := by
  rw [Bytes.decode_encode]
  apply BitVec.eq_of_toNat_eq
  simp [x.isLt]

theorem decode_word (order : Order) (x : Word) :
    BitVec.ofNat 32 (order.decode (order.encode 4 x.toNat)) = x := by
  rw [Bytes.decode_encode]
  apply BitVec.eq_of_toNat_eq
  simp [x.isLt]

theorem filter_of_bytes (order : Order) (f : Filter) :
    Filter.ofBytes order (f.bytes order) = f := by
  have front : (order.encode 2 f.code.toNat).length = 2 := Bytes.encode_length order 2 _
  have back : (order.encode 4 f.k.toNat).length = 4 := Bytes.encode_length order 4 _
  have code := decode_half order f.code
  have k := decode_word order f.k
  unfold Filter.bytes Filter.ofBytes
  generalize order.encode 2 f.code.toNat = low at front code
  generalize order.encode 4 f.k.toNat = high at back k
  rcases List.length_eq_two.mp front with ⟨b0, b1, rfl⟩
  have whole : high.take 4 = high := List.take_of_length_le (Nat.le_of_eq back)
  simp [whole, code, k]

theorem eight_bytes (bytes : List Byte) (eight : bytes.length = 8) :
    ∃ b0 b1 b2 b3 b4 b5 b6 b7, bytes = [b0, b1, b2, b3, b4, b5, b6, b7] := by
  match bytes, eight with
  | [b0, b1, b2, b3, b4, b5, b6, b7], _ => exact ⟨b0, b1, b2, b3, b4, b5, b6, b7, rfl⟩

theorem encode_half (order : Order) (b0 b1 : Byte) :
    order.encode 2 (order.decode [b0, b1] % 65536) = [b0, b1] :=
  (Bytes.encode_mod order 2 (order.decode [b0, b1])).trans (Bytes.encode_decode order [b0, b1])

theorem encode_word (order : Order) (b0 b1 b2 b3 : Byte) :
    order.encode 4 (order.decode [b0, b1, b2, b3] % 4294967296) = [b0, b1, b2, b3] :=
  (Bytes.encode_mod order 4 (order.decode [b0, b1, b2, b3])).trans
    (Bytes.encode_decode order [b0, b1, b2, b3])

theorem bytes_of_filter (order : Order) (bytes : List Byte) (eight : bytes.length = 8) :
    (Filter.ofBytes order bytes).bytes order = bytes := by
  rcases eight_bytes bytes eight with ⟨b0, b1, b2, b3, b4, b5, b6, b7, rfl⟩
  simp [Filter.ofBytes, Filter.bytes, encode_half, encode_word]

theorem nibbles (high low : BitVec 4) :
    (high ++ low).extractLsb' 0 4 = low ∧ (high ++ low).extractLsb' 4 4 = high := by
  constructor
  · apply BitVec.eq_of_getLsbD_eq
    intro j inside
    rw [BitVec.getLsbD_extractLsb', BitVec.getLsbD_append, Nat.zero_add, if_pos inside,
      decide_eq_true inside, Bool.true_and]
  · apply BitVec.eq_of_getLsbD_eq
    intro j inside
    rw [BitVec.getLsbD_extractLsb', BitVec.getLsbD_append, if_neg (by omega),
      decide_eq_true inside, Bool.true_and, Nat.add_sub_cancel_left]

theorem insn_of_bytes (order : Order) (insn : BpfInsn) :
    BpfInsn.ofBytes order (insn.bytes order) = insn := by
  have front : (order.encode 2 insn.off.toNat).length = 2 := Bytes.encode_length order 2 _
  have back : (order.encode 4 insn.imm.toNat).length = 4 := Bytes.encode_length order 4 _
  have off := decode_half order insn.off
  have imm := decode_word order insn.imm
  unfold BpfInsn.bytes BpfInsn.ofBytes
  generalize order.encode 2 insn.off.toNat = low at front off
  generalize order.encode 4 insn.imm.toNat = high at back imm
  rcases List.length_eq_two.mp front with ⟨b2, b3, rfl⟩
  have whole : high.take 4 = high := List.take_of_length_le (Nat.le_of_eq back)
  cases order with
  | little => simp [BpfInsn.regs, nibbles, whole, off, imm]
  | big => simp [BpfInsn.regs, nibbles, whole, off, imm]

theorem joined_nibbles (byte : Byte) :
    byte.extractLsb' 4 4 ++ byte.extractLsb' 0 4 = byte := by
  apply BitVec.eq_of_getLsbD_eq
  intro j inside
  rw [BitVec.getLsbD_append, BitVec.getLsbD_extractLsb', BitVec.getLsbD_extractLsb', Nat.zero_add]
  by_cases low : j < 4
  · rw [if_pos low, decide_eq_true low, Bool.true_and]
  · rw [if_neg low, decide_eq_true (show j - 4 < 4 by omega), Bool.true_and,
      Nat.add_sub_cancel' (Nat.le_of_not_lt low)]

theorem bytes_of_insn (order : Order) (bytes : List Byte) (eight : bytes.length = 8) :
    (BpfInsn.ofBytes order bytes).bytes order = bytes := by
  rcases eight_bytes bytes eight with ⟨b0, b1, b2, b3, b4, b5, b6, b7, rfl⟩
  have joined := joined_nibbles b1
  cases order with
  | little => simp [BpfInsn.ofBytes, BpfInsn.bytes, BpfInsn.regs, joined, encode_half, encode_word]
  | big => simp [BpfInsn.ofBytes, BpfInsn.bytes, BpfInsn.regs, joined, encode_half, encode_word]

end Ceccomp
