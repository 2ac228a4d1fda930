import Ceccomp.Ebpf.Simulation
import Ceccomp.Lib.Spread

/-!
Constant blinding as the kernel does it, `bpf_jit_blind_insn`: an instruction
with an immediate becomes two that put the immediate into `AX` and itself with
`AX` in place of it, and a move of zero may become a xor. Jumps are adjusted so
that they still go to the start of what their target became.
-/

namespace Ceccomp

open Spread (place)

/-- What blinding does to one instruction. -/
inductive Blinding where
  | kept
  | cleared
  | split (rnd : Word)
  deriving DecidableEq, Repr

def Blinding.size : Blinding → Nat
  | .kept | .cleared => 1
  | .split _ => 3

/-- The operations with an immediate, which may be rewritten. The kernel leaves shifts alone. -/
def BpfInsn.blindable (insn : BpfInsn) : Bool :=
  insn.src == 0 &&
    ((insn.cls == 0x04 || insn.cls == 0x07) &&
        [0x00, 0x10, 0x20, 0x30, 0x40, 0x50, 0x60, 0x70, 0x90, 0xa0, 0xb0].contains insn.op ||
      insn.cls == 0x05 &&
        [0x10, 0x20, 0x30, 0x40, 0x50, 0x60, 0x70, 0xa0, 0xb0, 0xc0, 0xd0].contains insn.op)

/-- Whether blinding may treat the instruction so. -/
def BpfInsn.Permits (insn : BpfInsn) : Blinding → Prop
  | .kept => True
  | .cleared => (insn.code = 0xb4 ∨ insn.code = 0xb7) ∧ insn.imm = 0
  | .split _ => insn.blindable = true

instance (insn : BpfInsn) (blinding : Blinding) : Decidable (insn.Permits blinding) :=
  match blinding with
  | .kept => isTrue trivial
  | .cleared => inferInstanceAs (Decidable ((insn.code = 0xb4 ∨ insn.code = 0xb7) ∧ insn.imm = 0))
  | .split _ => inferInstanceAs (Decidable (insn.blindable = true))

def BpfInsn.jumps (insn : BpfInsn) : Bool :=
  (insn.cls == 0x05 || insn.cls == 0x06) && insn.op != 0x90

def blindInsn (insn : BpfInsn) (off : BitVec 16) : Blinding → List BpfInsn
  | .kept => [{ insn with off }]
  | .cleared => [⟨0xaf, insn.dstReg, insn.dstReg, 0, 0⟩]
  | .split rnd =>
      let cls : BitVec 8 := if insn.cls = 0x04 then 0x04 else 0x07
      [⟨cls ||| 0xb0, bpfRegAx, 0, 0, rnd ^^^ insn.imm⟩, ⟨cls ||| 0xa0, bpfRegAx, 0, 0, rnd⟩,
        ⟨insn.code ||| 0x08, insn.dstReg, bpfRegAx, off, 0⟩]

def blindAddr (choice : Nat → Blinding) : Nat → Nat := place fun i => (choice i).size

def jumpTarget (insn : BpfInsn) (i : Nat) : Nat := (i + 1 + insn.off.toInt).toNat

def adjustedOff (choice : Nat → Blinding) (insn : BpfInsn) (i : Nat) : BitVec 16 :=
  if insn.jumps then
    BitVec.ofInt 16 (blindAddr choice (jumpTarget insn i) - blindAddr choice (i + 1))
  else insn.off

def blindAt (choice : Nat → Blinding) (ebpfs : Nat → BpfInsn) (i : Nat) : List BpfInsn :=
  blindInsn (ebpfs i) (adjustedOff choice (ebpfs i) i) (choice i)

/-- `bpf_jit_blind_constants` over `len` instructions. -/
def bpfJitBlindConstants (choice : Nat → Blinding) (ebpfs : Nat → BpfInsn) (len : Nat) :
    List BpfInsn :=
  (List.range len).flatMap (blindAt choice ebpfs)

theorem blind_at_length (choice : Nat → Blinding) (ebpfs : Nat → BpfInsn) (i : Nat) :
    (blindAt choice ebpfs i).length = (choice i).size := by
  unfold blindAt
  cases choice i <;> rfl

theorem blinding_size_pos (blinding : Blinding) : 0 < blinding.size := by
  cases blinding <;> simp [Blinding.size]

theorem blind_roomy (choice : Nat → Blinding) (n : Nat) :
    Spread.Roomy (fun i => (choice i).size) n :=
  fun i _ => blinding_size_pos (choice i)

theorem blind_addr_succ (choice : Nat → Blinding) (i : Nat) :
    blindAddr choice (i + 1) = blindAddr choice i + (choice i).size := rfl

theorem blind_addr_lt (choice : Nat → Blinding) {i j : Nat} (less : i < j) :
    blindAddr choice i < blindAddr choice j :=
  Spread.place_lt (blind_roomy choice j) less (Nat.le_refl j)

theorem blind_addr_le (choice : Nat → Blinding) {i j : Nat} (le : i ≤ j) :
    blindAddr choice i ≤ blindAddr choice j :=
  Spread.place_le _ le

theorem blind_addr_inj (choice : Nat → Blinding) {i j : Nat}
    (same : blindAddr choice i = blindAddr choice j) : i = j :=
  Spread.place_inj (blind_roomy choice (i + j)) (by omega) (by omega) same

theorem blind_constants_length (choice : Nat → Blinding) (ebpfs : Nat → BpfInsn) (len : Nat) :
    (bpfJitBlindConstants choice ebpfs len).length = blindAddr choice len := by
  unfold bpfJitBlindConstants
  induction len with
  | zero => rfl
  | succ len ih =>
      rw [List.range_succ, List.flatMap_append, List.length_append, ih, blind_addr_succ]
      simp [blind_at_length]

theorem blind_constants_get (choice : Nat → Blinding) (ebpfs : Nat → BpfInsn) (len i j : Nat)
    (inside : i < len) (small : j < (choice i).size) :
    (bpfJitBlindConstants choice ebpfs len)[blindAddr choice i + j]? =
      (blindAt choice ebpfs i)[j]? := by
  unfold bpfJitBlindConstants
  induction len with
  | zero => exact absurd inside (Nat.not_lt_zero i)
  | succ len ih =>
      have before := blind_constants_length choice ebpfs len
      unfold bpfJitBlindConstants at before
      rw [List.range_succ, List.flatMap_append]
      rcases Nat.lt_or_ge i len with early | last
      · have later := blind_addr_le choice (show i + 1 ≤ len from early)
        rw [blind_addr_succ] at later
        rw [List.getElem?_append_left (by omega), ih early]
      · obtain rfl : i = len := by omega
        rw [List.getElem?_append_right (by omega), before]
        simp

/-- Memory holds the blinded form of the first `len` instructions. What lies
behind it is arbitrary. -/
structure Blinds (choice : Nat → Blinding) (ebpfs : Nat → BpfInsn) (len : Nat)
    (blinded : Nat → BpfInsn) : Prop where
  permits : ∀ i, i < len → (ebpfs i).Permits (choice i)
  held : ∀ i, i < blindAddr choice len →
    (bpfJitBlindConstants choice ebpfs len)[i]? = some (blinded i)

theorem blinds_list (choice : Nat → Blinding) (ebpfs : Nat → BpfInsn) (len : Nat)
    (permits : ∀ i, i < len → (ebpfs i).Permits (choice i)) :
    Blinds choice ebpfs len fun i => (bpfJitBlindConstants choice ebpfs len).getD i default := by
  refine ⟨permits, fun i inside => ?_⟩
  rw [← blind_constants_length choice ebpfs len] at inside
  simp [inside]

/-- eBPF of the shape a migrated program has: jumps stay inside, `AX` is left
alone, a comparison by way of `TMP` and a division take their own registers. -/
structure Tidy (ebpfs : Nat → BpfInsn) (len : Nat) : Prop where
  prologue : ∀ i, i < skip → i < len ∧ (ebpfs i).src = 0x08 ∧ (ebpfs i).jumps = false
  inside : ∀ i, i < len → jumpsInside ebpfs len i = true
  last : ∃ i, len = i + 1 ∧ (ebpfs i).code = 0x95
  move : ∀ i, i < len → ((ebpfs i).cls = 0x04 ∨ (ebpfs i).cls = 0x07) → (ebpfs i).op = 0xb0 →
    (ebpfs i).dstReg ≠ bpfRegAx ∧
      ((ebpfs i).src = 0 → (ebpfs i).code = 0xb4 ∧ (ebpfs i).srcReg = 0) ∧
      ((ebpfs i).src ≠ 0 → (ebpfs i).dstReg ≠ bpfRegTmp)
  clear : ∀ i, i < len → ((ebpfs i).cls = 0x04 ∨ (ebpfs i).cls = 0x07) → (ebpfs i).op = 0xa0 →
    (ebpfs i).src = 0x08 → (ebpfs i).srcReg = (ebpfs i).dstReg → (ebpfs i).dstReg = bpfRegA ∨
      (ebpfs i).dstReg = bpfRegX
  compare : ∀ i, i < len → (ebpfs i).code = 0xb4 → (ebpfs i).dstReg = bpfRegTmp →
    (ebpfs (i + 1)).src = 0x08 ∧ (ebpfs (i + 1)).op ≠ 0x00 ∧ (ebpfs (i + 1)).op ≠ 0x90
  divide : ∀ i, i < len → (ebpfs i).code = 0xbc → (ebpfs i).dstReg = bpfRegX →
    (ebpfs i).srcReg = bpfRegX → i + 4 < len ∧ (ebpfs (i + 1)).code = 0x55 ∧
      (ebpfs (i + 2)).code = 0xac ∧ (ebpfs (i + 3)).code = 0x95 ∧ (ebpfs (i + 4)).src = 0x08

end Ceccomp
