import Mathlib.Algebra.Group.Nat.Defs
import Mathlib.Logic.Function.Basic

/-!
Classic BPF as `linux/filter.h` and `linux/bpf_common.h` lay it out: the encoded
`sock_filter`, the field macros, the table of opcodes of `x-macro/valid_codes.h`
and the instruction each of them stands for.
-/

namespace Ceccomp

abbrev Word := BitVec 32

def bpfMaxInsns : Nat := 4096
def bpfMemWords : Nat := 16

def seccompDataSize : Nat := 64

def seccompDataLen : Word := seccompDataSize

structure Filter where
  code : BitVec 16
  jt : BitVec 8
  jf : BitVec 8
  k : Word
  deriving DecidableEq, Repr

def bpfClass (code : BitVec 16) : BitVec 16 := code &&& 0x07#16
def bpfOp (code : BitVec 16) : BitVec 16 := code &&& 0xf0#16
def bpfSrc (code : BitVec 16) : BitVec 16 := code &&& 0x08#16
def bpfMode (code : BitVec 16) : BitVec 16 := code &&& 0xe0#16
def bpfRval (code : BitVec 16) : BitVec 16 := code &&& 0x18#16
def bpfMiscOp (code : BitVec 16) : BitVec 16 := code &&& 0xf8#16

inductive Reg where
  | A | X
  deriving DecidableEq, Repr

inductive Src where
  | k (value : Word)
  | x
  deriving DecidableEq, Repr

inductive AluOp where
  | add | sub | mul | div | or | and | lsh | rsh | xor
  deriving DecidableEq, Repr

inductive JmpOp where
  | jeq | jgt | jge | jset
  deriving DecidableEq, Repr

/-- The instructions seccomp admits, each with the fields the kernel reads. -/
inductive Insn where
  | ldAbs (k : Word)
  | ldLen (dst : Reg)
  | ldImm (dst : Reg) (k : Word)
  | ldMem (dst : Reg) (k : Word)
  | st (src : Reg) (k : Word)
  | alu (op : AluOp) (src : Src)
  | neg
  | tax
  | txa
  | ja (k : Word)
  | jmp (op : JmpOp) (src : Src) (jt jf : BitVec 8)
  | retA
  | retK (k : Word)
  deriving DecidableEq, Repr

def Reg.ldClass : Reg → BitVec 16
  | .A => 0x00
  | .X => 0x01

def Reg.stClass : Reg → BitVec 16
  | .A => 0x02
  | .X => 0x03

def Src.bit : Src → BitVec 16
  | .k _ => 0x00
  | .x => 0x08

def Src.imm : Src → Word
  | .k value => value
  | .x => 0

def AluOp.bits : AluOp → BitVec 16
  | .add => 0x00
  | .sub => 0x10
  | .mul => 0x20
  | .div => 0x30
  | .or => 0x40
  | .and => 0x50
  | .lsh => 0x60
  | .rsh => 0x70
  | .xor => 0xa0

def JmpOp.bits : JmpOp → BitVec 16
  | .jeq => 0x10
  | .jgt => 0x20
  | .jge => 0x30
  | .jset => 0x40

/-- The opcode of an instruction, as `BPF_STMT` and `BPF_JUMP` build it. -/
def Insn.code : Insn → BitVec 16
  | .ldAbs _ => 0x20
  | .ldLen dst => 0x80 ||| dst.ldClass
  | .ldImm dst _ => dst.ldClass
  | .ldMem dst _ => 0x60 ||| dst.ldClass
  | .st src _ => src.stClass
  | .alu op src => 0x04 ||| op.bits ||| src.bit
  | .neg => 0x84
  | .tax => 0x07
  | .txa => 0x87
  | .ja _ => 0x05
  | .jmp op src _ _ => 0x05 ||| op.bits ||| src.bit
  | .retA => 0x16
  | .retK _ => 0x06

def Insn.jt : Insn → BitVec 8
  | .jmp _ _ jt _ => jt
  | _ => 0

def Insn.jf : Insn → BitVec 8
  | .jmp _ _ _ jf => jf
  | _ => 0

def Insn.k : Insn → Word
  | .ldAbs k | .ldImm _ k | .ldMem _ k | .st _ k | .ja k | .retK k => k
  | .alu _ src | .jmp _ src _ _ => src.imm
  | _ => 0

/-- The encoding with every field the kernel ignores set to zero. -/
def Insn.filter (insn : Insn) : Filter :=
  { code := insn.code, jt := insn.jt, jf := insn.jf, k := insn.k }

def Filter.insn? (f : Filter) : Option Insn :=
  match f.code.toNat with
  | 0x00 => some (.ldImm .A f.k)
  | 0x01 => some (.ldImm .X f.k)
  | 0x02 => some (.st .A f.k)
  | 0x03 => some (.st .X f.k)
  | 0x04 => some (.alu .add (.k f.k))
  | 0x05 => some (.ja f.k)
  | 0x06 => some (.retK f.k)
  | 0x07 => some .tax
  | 0x0c => some (.alu .add .x)
  | 0x14 => some (.alu .sub (.k f.k))
  | 0x15 => some (.jmp .jeq (.k f.k) f.jt f.jf)
  | 0x16 => some .retA
  | 0x1c => some (.alu .sub .x)
  | 0x1d => some (.jmp .jeq .x f.jt f.jf)
  | 0x20 => some (.ldAbs f.k)
  | 0x24 => some (.alu .mul (.k f.k))
  | 0x25 => some (.jmp .jgt (.k f.k) f.jt f.jf)
  | 0x2c => some (.alu .mul .x)
  | 0x2d => some (.jmp .jgt .x f.jt f.jf)
  | 0x34 => some (.alu .div (.k f.k))
  | 0x35 => some (.jmp .jge (.k f.k) f.jt f.jf)
  | 0x3c => some (.alu .div .x)
  | 0x3d => some (.jmp .jge .x f.jt f.jf)
  | 0x44 => some (.alu .or (.k f.k))
  | 0x45 => some (.jmp .jset (.k f.k) f.jt f.jf)
  | 0x4c => some (.alu .or .x)
  | 0x4d => some (.jmp .jset .x f.jt f.jf)
  | 0x54 => some (.alu .and (.k f.k))
  | 0x5c => some (.alu .and .x)
  | 0x60 => some (.ldMem .A f.k)
  | 0x61 => some (.ldMem .X f.k)
  | 0x64 => some (.alu .lsh (.k f.k))
  | 0x6c => some (.alu .lsh .x)
  | 0x74 => some (.alu .rsh (.k f.k))
  | 0x7c => some (.alu .rsh .x)
  | 0x80 => some (.ldLen .A)
  | 0x81 => some (.ldLen .X)
  | 0x84 => some .neg
  | 0x87 => some .txa
  | 0xa4 => some (.alu .xor (.k f.k))
  | 0xac => some (.alu .xor .x)
  | _ => none

/-- Every valid filter carries the opcode of its instruction, and the fields
that instruction reads. -/
theorem insn_code (f : Filter) (insn : Insn) (valid : f.insn? = some insn) :
    f.code = insn.code := by
  apply BitVec.eq_of_toNat_eq
  unfold Filter.insn? at valid
  split at valid
  all_goals first
    | (cases valid; next same =>
        simp [same, Insn.code, Reg.ldClass, Reg.stClass, AluOp.bits, JmpOp.bits, Src.bit])
    | cases valid

theorem insn_of_filter (insn : Insn) : insn.filter.insn? = some insn := by
  cases insn with
  | ldAbs k => rfl
  | ldLen dst => cases dst <;> rfl
  | ldImm dst k => cases dst <;> rfl
  | ldMem dst k => cases dst <;> rfl
  | st src k => cases src <;> rfl
  | alu op src =>
      cases op <;> cases src <;>
        simp [Insn.filter, Filter.insn?, Insn.code, AluOp.bits, Src.bit, Insn.k, Src.imm]
  | neg | tax | txa | retA => rfl
  | ja k => rfl
  | jmp op src jt jf =>
      cases op <;> cases src <;>
        simp [Insn.filter, Filter.insn?, Insn.code, JmpOp.bits, Src.bit, Insn.k, Src.imm,
          Insn.jt, Insn.jf]
  | retK k => rfl

def Insn.over (f : Filter) : Insn → Insn
  | .ldAbs _ => .ldAbs f.k
  | .ldImm dst _ => .ldImm dst f.k
  | .ldMem dst _ => .ldMem dst f.k
  | .st src _ => .st src f.k
  | .alu op (.k _) => .alu op (.k f.k)
  | .ja _ => .ja f.k
  | .jmp op (.k _) _ _ => .jmp op (.k f.k) f.jt f.jf
  | .jmp op .x _ _ => .jmp op .x f.jt f.jf
  | .retK _ => .retK f.k
  | insn => insn

theorem insn_over (f : Filter) (insn : Insn) (valid : f.insn? = some insn) :
    insn.over f = insn := by
  unfold Filter.insn? at valid
  split at valid <;> cases valid <;> rfl

end Ceccomp
