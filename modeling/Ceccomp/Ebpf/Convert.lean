import Ceccomp.Bpf.Machine
import Ceccomp.Ebpf.Translate

/-!
The kernel's migration of a classic filter to eBPF, `bpf_convert_filter`, as far
as seccomp programs need it: a prologue of three instructions, then one group of
instructions for each filter. `addr` is where a group starts.
-/

namespace Ceccomp

def Src.large : Src → Bool
  | .k value => value.msb
  | .x => false

/-- How a conditional jump is laid out behind its `MOV TMP K`, if it has one. -/
inductive JmpForm where
  | taken | inverted | both
  deriving DecidableEq, Repr

def jmpForm (op : JmpOp) (jt jf : BitVec 8) : JmpForm :=
  if jf = 0 then .taken
  else if jt = 0 ∧ op ≠ .jset then .inverted
  else .both

def JmpForm.size : JmpForm → Nat
  | .taken | .inverted => 1
  | .both => 2

def Src.fold (src : Src) : Nat := if src.large then 1 else 0

def Insn.groupSize : Insn → Nat
  | .alu .div .x => 5
  | .jmp op src jt jf => src.fold + (jmpForm op jt jf).size
  | .retK _ => 2
  | .ldAbs _ | .ldLen _ | .ldImm .. | .ldMem .. | .st .. | .alu .. | .neg | .tax | .txa | .ja _
  | .retA => 1

def Reg.ebpf : Reg → BitVec 4
  | .A => bpfRegA
  | .X => bpfRegX

def mov32Imm (dst : BitVec 4) (imm : Word) : BpfInsn := ⟨0xb4, dst, 0, 0, imm⟩

def exitInsn : BpfInsn := ⟨0x95, 0, 0, 0, 0⟩

def bpfRaw (code : BitVec 16) (off : BitVec 16) (imm : Word) : BpfInsn :=
  ⟨code.setWidth 8, bpfRegA, bpfRegX, off, imm⟩

def frameOff (slot : Word) : BitVec 16 := BitVec.ofInt 16 (-(slot.toNat * 4 + 4))

/-- `JNE`, `JLE` and `JLT` take the place of `JEQ`, `JGT` and `JGE`. -/
def JmpOp.inverse : JmpOp → BitVec 16
  | .jeq => 0x50
  | .jgt => 0xb0
  | .jge => 0xa0
  | .jset => 0x40

def emitJmp (addrs : Nat → Nat) (target at_ : Nat) : BitVec 16 :=
  BitVec.ofInt 16 (addrs target - at_ - 1)

def jumpInsn (src : Src) (k : Word) (bits off : BitVec 16) : BpfInsn :=
  if src.large then ⟨(0x05 ||| bits ||| 0x08).setWidth 8, bpfRegA, bpfRegTmp, off, 0⟩
  else ⟨(0x05 ||| bits ||| src.bit).setWidth 8, bpfRegA, if src = .x then bpfRegX else 0, off, k⟩

def convertInsn (addrs : Nat → Nat) (c : Nat) (k : Word) : Insn → List BpfInsn
  | .ldAbs k => [⟨0x61, bpfRegA, bpfRegCtx, k.setWidth 16, 0⟩]
  | .ldLen dst => [mov32Imm dst.ebpf seccompDataLen]
  | .ldImm dst k => [mov32Imm dst.ebpf k]
  | .ldMem dst k => [⟨0x61, dst.ebpf, bpfRegFp, frameOff k, 0⟩]
  | .st src k => [⟨0x63, bpfRegFp, src.ebpf, frameOff k, 0⟩]
  | .alu .div .x =>
      [⟨0xbc, bpfRegX, bpfRegX, 0, 0⟩, ⟨0x55, bpfRegX, 0, 2, 0⟩, ⟨0xac, bpfRegA, bpfRegA, 0, 0⟩,
        exitInsn, bpfRaw 0x3c 0 k]
  | .alu op src => [bpfRaw (0x04 ||| op.bits ||| src.bit) 0 k]
  | .neg => [bpfRaw 0x84 0 k]
  | .tax => [⟨0xbf, bpfRegX, bpfRegA, 0, 0⟩]
  | .txa => [⟨0xbf, bpfRegA, bpfRegX, 0, 0⟩]
  | .ja k => [⟨0x05, 0, 0, emitJmp addrs (c + 1 + k.toNat) (addrs c), 0⟩]
  | .jmp op src jt jf =>
      let here := addrs c + src.fold
      let body := match jmpForm op jt jf with
        | .taken => [jumpInsn src k op.bits (emitJmp addrs (c + 1 + jt.toNat) here)]
        | .inverted => [jumpInsn src k op.inverse (emitJmp addrs (c + 1 + jf.toNat) here)]
        | .both => [jumpInsn src k op.bits (emitJmp addrs (c + 1 + jt.toNat) here),
            ⟨0x05, 0, 0, emitJmp addrs (c + 1 + jf.toNat) (here + 1), 0⟩]
      if src.large then mov32Imm bpfRegTmp k :: body else body
  | .retA => [exitInsn]
  | .retK k => [mov32Imm bpfRegA k, exitInsn]

def sizeAt (prog : List Filter) (c : Nat) : Nat :=
  match insnAt prog c with
  | some insn => insn.groupSize
  | none => 0

/-- `addrs` of the kernel: the index of the first instruction of filter `c`. -/
def addr (prog : List Filter) : Nat → Nat
  | 0 => skip
  | c + 1 => addr prog c + sizeAt prog c

def groupAt (prog : List Filter) (c : Nat) : List BpfInsn :=
  match prog[c]? with
  | none => []
  | some f =>
      match f.insn? with
      | none => []
      | some insn => convertInsn (addr prog) c f.k insn

def prologue : List BpfInsn :=
  [⟨0xac, bpfRegA, bpfRegA, 0, 0⟩, ⟨0xac, bpfRegX, bpfRegX, 0, 0⟩,
    ⟨0xbf, bpfRegCtx, bpfRegArg1, 0, 0⟩]

def bpfConvertFilter (prog : List Filter) : List BpfInsn :=
  prologue ++ (List.range prog.length).flatMap (groupAt prog)

theorem convert_insn_length (addrs : Nat → Nat) (c : Nat) (k : Word) (insn : Insn) :
    (convertInsn addrs c k insn).length = insn.groupSize := by
  cases insn with
  | alu op src => cases op <;> cases src <;> rfl
  | jmp op src jt jf =>
      simp only [convertInsn, Insn.groupSize, Src.fold]
      cases src.large <;> cases jmpForm op jt jf <;> rfl
  | _ => rfl

theorem group_at_length (prog : List Filter) (c : Nat) :
    (groupAt prog c).length = sizeAt prog c := by
  unfold groupAt sizeAt insnAt
  cases fetched : prog[c]? with
  | none => rfl
  | some f =>
      cases decoded : f.insn? with
      | none => simp [decoded]
      | some insn => simpa [decoded] using convert_insn_length (addr prog) c f.k insn

theorem flat_groups_length (prog : List Filter) (n : Nat) :
    ((List.range n).flatMap (groupAt prog)).length + skip = addr prog n := by
  induction n with
  | zero => rfl
  | succ n ih =>
      rw [List.range_succ, List.flatMap_append, List.length_append, addr, ← ih]
      simp only [List.flatMap_cons, List.flatMap_nil, List.append_nil, group_at_length]
      omega

theorem convert_length (prog : List Filter) :
    (bpfConvertFilter prog).length = addr prog prog.length := by
  rw [← flat_groups_length, bpfConvertFilter, List.length_append, Nat.add_comm]
  rfl

theorem addr_mono (prog : List Filter) {c d : Nat} (le : c ≤ d) : addr prog c ≤ addr prog d := by
  induction d with
  | zero => simp [Nat.le_zero.mp le]
  | succ d ih =>
      rcases Nat.lt_or_ge c (d + 1) with less | same
      · rw [addr]
        have before := ih (by omega)
        omega
      · simp [Nat.le_antisymm le same]

theorem skip_le_addr (prog : List Filter) (c : Nat) : skip ≤ addr prog c :=
  addr_mono prog (Nat.zero_le c)

theorem group_size_le (insn : Insn) : insn.groupSize ≤ 5 := by
  cases insn with
  | alu op src => cases op <;> cases src <;> simp [Insn.groupSize]
  | jmp op src jt jf =>
      have fold : src.fold ≤ 1 := by
        unfold Src.fold
        split <;> omega
      have body : (jmpForm op jt jf).size ≤ 2 := by cases jmpForm op jt jf <;> decide
      simp only [Insn.groupSize]
      omega
  | _ => simp [Insn.groupSize]

theorem addr_le (prog : List Filter) (c : Nat) : addr prog c ≤ skip + 5 * c := by
  induction c with
  | zero => exact Nat.le_refl _
  | succ c ih =>
      have small : sizeAt prog c ≤ 5 := by
        unfold sizeAt
        split
        · exact group_size_le _
        · omega
      rw [addr]
      omega

theorem flat_groups_get (prog : List Filter) (n c j : Nat) (inside : c < n)
    (small : j < sizeAt prog c) :
    ((List.range n).flatMap (groupAt prog))[addr prog c - skip + j]? = (groupAt prog c)[j]? := by
  have own := flat_groups_length prog c
  induction n with
  | zero => omega
  | succ n ih =>
      have before := flat_groups_length prog n
      rw [List.range_succ, List.flatMap_append]
      simp only [List.flatMap_cons, List.flatMap_nil, List.append_nil]
      rcases Nat.lt_or_ge c n with early | last
      · have below : addr prog (c + 1) ≤ addr prog n := addr_mono prog early
        rw [addr] at below
        rw [List.getElem?_append_left (by omega), ih early]
      · obtain rfl : c = n := by omega
        rw [List.getElem?_append_right (by omega)]
        congr 1
        omega

/-- Memory holds the migrated program. What lies behind it is arbitrary. -/
def Migrated (prog : List Filter) (ebpfs : Nat → BpfInsn) : Prop :=
  ∀ i, i < addr prog prog.length → (bpfConvertFilter prog)[i]? = some (ebpfs i)

theorem migrated_list (prog : List Filter) :
    Migrated prog (fun i => (bpfConvertFilter prog).getD i default) := by
  intro i inside
  rw [← convert_length] at inside
  simp [inside]

theorem migrated_prologue (prog : List Filter) (ebpfs : Nat → BpfInsn)
    (migrated : Migrated prog ebpfs) (i : Nat) (small : i < skip) :
    prologue[i]? = some (ebpfs i) := by
  have bound := skip_le_addr prog prog.length
  rw [← migrated i (by omega), bpfConvertFilter, List.getElem?_append_left small]

theorem migrated_group (prog : List Filter) (ebpfs : Nat → BpfInsn)
    (migrated : Migrated prog ebpfs) (c j : Nat) (inside : c < prog.length)
    (small : j < sizeAt prog c) : (groupAt prog c)[j]? = some (ebpfs (addr prog c + j)) := by
  have bound := skip_le_addr prog c
  have fits : addr prog (c + 1) ≤ addr prog prog.length := addr_mono prog inside
  rw [addr] at fits
  have after : prologue.length ≤ addr prog c + j := by
    have three : prologue.length = skip := rfl
    omega
  rw [← migrated (addr prog c + j) (by omega), bpfConvertFilter, List.getElem?_append_right after,
    ← flat_groups_get prog prog.length c j inside small]
  congr 1
  have three : prologue.length = skip := rfl
  omega

theorem migrated_insn (prog : List Filter) (ebpfs : Nat → BpfInsn)
    (migrated : Migrated prog ebpfs) (c : Nat) (insn : Insn) (here : insnAt prog c = some insn) :
    ∃ f, prog[c]? = some f ∧ f.insn? = some insn ∧ ∀ j, j < insn.groupSize →
      (convertInsn (addr prog) c f.k insn)[j]? = some (ebpfs (addr prog c + j)) := by
  obtain ⟨f, fetched, decoded⟩ := Option.bind_eq_some_iff.mp here
  refine ⟨f, fetched, decoded, ?_⟩
  intro j small
  have group : groupAt prog c = convertInsn (addr prog) c f.k insn := by
    simp [groupAt, fetched, decoded]
  rw [← group]
  have inside : c < prog.length := (List.getElem?_eq_some_iff.mp fetched).1
  exact migrated_group prog ebpfs migrated c j inside (by simpa [sizeAt, here] using small)

theorem emit_jmp_int (prog : List Filter) (target at_ : Nat) (short : target ≤ bpfMaxInsns)
    (ahead : at_ < addr prog target) :
    (emitJmp (addr prog) target at_).toInt = addr prog target - at_ - 1 := by
  have bound := addr_le prog target
  simp only [skip, bpfMaxInsns] at bound short
  rw [emitJmp, BitVec.toInt_ofInt, Int.bmod_eq_of_le] <;> omega

end Ceccomp
