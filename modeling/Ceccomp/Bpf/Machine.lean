import Ceccomp.Lib.Machine
import Ceccomp.Bpf.Filter

/-!
The classic BPF machine as seccomp runs it: two registers cleared at entry,
sixteen scratch words that keep whatever memory held before (`stale`), and the
64 bytes of `struct seccomp_data` in the target's little-endian layout.
-/

namespace Ceccomp

structure SeccompData where
  nr : Word
  arch : Word
  instructionPointer : BitVec 64
  args : Fin 6 → BitVec 64

def lowHalf (value : BitVec 64) : Word := value.setWidth 32
def highHalf (value : BitVec 64) : Word := (value >>> 32).setWidth 32

/-- The sixteen words of the structure on a little-endian machine. -/
def SeccompData.words (data : SeccompData) : List Word :=
  [data.nr, data.arch, lowHalf data.instructionPointer, highHalf data.instructionPointer,
    lowHalf (data.args 0), highHalf (data.args 0), lowHalf (data.args 1), highHalf (data.args 1),
    lowHalf (data.args 2), highHalf (data.args 2), lowHalf (data.args 3), highHalf (data.args 3),
    lowHalf (data.args 4), highHalf (data.args 4), lowHalf (data.args 5), highHalf (data.args 5)]

def SeccompData.load (data : SeccompData) (offset : Nat) : Option Word :=
  if offset % 4 = 0 then data.words[offset / 4]? else none

/-- Registers and scratch memory. A slot the run has not written yet is `none`. -/
structure Regs where
  A : Word
  X : Word
  mem : Nat → Option Word

def Regs.initial : Regs := { A := 0, X := 0, mem := fun _ => none }

def Regs.get (regs : Regs) : Reg → Word
  | .A => regs.A
  | .X => regs.X

def Regs.set (regs : Regs) (value : Word) : Reg → Regs
  | .A => { regs with A := value }
  | .X => { regs with X := value }

def Regs.store (regs : Regs) (slot : Nat) (value : Word) : Regs :=
  { regs with mem := Function.update regs.mem slot (some value) }

def Src.eval (regs : Regs) : Src → Word
  | .k value => value
  | .x => regs.X

/-- 32-bit wrap-around arithmetic; a shift uses the low five bits of its operand. -/
def AluOp.eval (op : AluOp) (a b : Word) : Word :=
  match op with
  | .add => a + b
  | .sub => a - b
  | .mul => a * b
  | .div => a / b
  | .or => a ||| b
  | .and => a &&& b
  | .lsh => a <<< (b.toNat % 32)
  | .rsh => a >>> (b.toNat % 32)
  | .xor => a ^^^ b

def JmpOp.holds (op : JmpOp) (a b : Word) : Bool :=
  match op with
  | .jeq => a == b
  | .jgt => decide (b.toNat < a.toNat)
  | .jge => decide (b.toNat ≤ a.toNat)
  | .jset => a &&& b != 0

structure BpfState where
  pc : Nat
  regs : Regs

/-- How a run ends: with the filter's return value, or because the kernel's
checks should have refused the program. -/
inductive BpfEnd where
  | ret (value : Word)
  | stuck
  deriving DecidableEq, Repr

open Machine (Next)

def Insn.exec (stale : Nat → Word) (data : SeccompData) (pc : Nat) (regs : Regs) :
    Insn → Next BpfState BpfEnd
  | .ldAbs k =>
      match data.load k.toNat with
      | some value => .go ⟨pc + 1, regs.set value .A⟩
      | none => .stop .stuck
  | .ldLen dst => .go ⟨pc + 1, regs.set seccompDataLen dst⟩
  | .ldImm dst k => .go ⟨pc + 1, regs.set k dst⟩
  | .ldMem dst k =>
      if k.toNat < bpfMemWords then
        .go ⟨pc + 1, regs.set ((regs.mem k.toNat).getD (stale k.toNat)) dst⟩
      else .stop .stuck
  | .st src k =>
      if k.toNat < bpfMemWords then .go ⟨pc + 1, regs.store k.toNat (regs.get src)⟩
      else .stop .stuck
  | .alu op src =>
      if op = .div ∧ src.eval regs = 0 then .stop (.ret 0)
      else .go ⟨pc + 1, regs.set (op.eval regs.A (src.eval regs)) .A⟩
  | .neg => .go ⟨pc + 1, regs.set (-regs.A) .A⟩
  | .tax => .go ⟨pc + 1, regs.set regs.A .X⟩
  | .txa => .go ⟨pc + 1, regs.set regs.X .A⟩
  | .ja k => .go ⟨pc + 1 + k.toNat, regs⟩
  | .jmp op src jt jf =>
      .go ⟨pc + 1 + (if op.holds regs.A (src.eval regs) then jt.toNat else jf.toNat), regs⟩
  | .retA => .stop (.ret regs.A)
  | .retK k => .stop (.ret k)

def bpfStep (stale : Nat → Word) (prog : List Filter) (data : SeccompData)
    (state : BpfState) : Next BpfState BpfEnd :=
  match prog[state.pc]? with
  | none => .stop .stuck
  | some f =>
      match f.insn? with
      | none => .stop .stuck
      | some insn => insn.exec stale data state.pc state.regs

def BpfState.initial : BpfState := ⟨0, Regs.initial⟩

/-- The value a filter returns, if the run reaches one within `len` steps. -/
def bpfRun (stale : Nat → Word) (prog : List Filter) (data : SeccompData) : Option Word :=
  match Machine.result (bpfStep stale prog data) prog.length BpfState.initial with
  | some (.ret value) => some value
  | _ => none

def insnAt (prog : List Filter) (pc : Nat) : Option Insn :=
  prog[pc]?.bind Filter.insn?

theorem bpf_step_insn (stale : Nat → Word) (prog : List Filter) (data : SeccompData)
    (state : BpfState) (insn : Insn) (fetched : insnAt prog state.pc = some insn) :
    bpfStep stale prog data state = insn.exec stale data state.pc state.regs := by
  obtain ⟨f, found, decoded⟩ := Option.bind_eq_some_iff.mp fetched
  simp [bpfStep, found, decoded]

theorem bpf_step_go (stale : Nat → Word) (prog : List Filter) (data : SeccompData)
    (state next : BpfState) (moved : bpfStep stale prog data state = .go next) :
    ∃ insn, insnAt prog state.pc = some insn ∧
      insn.exec stale data state.pc state.regs = .go next := by
  unfold bpfStep at moved
  cases found : prog[state.pc]? with
  | none => simp [found] at moved
  | some f =>
      cases decoded : f.insn? with
      | none => simp [found, decoded] at moved
      | some insn => exact ⟨insn, by simp [insnAt, found, decoded], by simpa [found, decoded] using moved⟩

end Ceccomp
