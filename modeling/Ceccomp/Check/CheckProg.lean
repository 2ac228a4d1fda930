import Ceccomp.Lib.Forward
import Ceccomp.Messages
import Ceccomp.Bpf.Machine

/-!
`decoder/check_prog.c`: the checks ported from the kernel, one filter after the
other. Reports are kept in the order they are printed.
-/

namespace Ceccomp

inductive ErrIdx where
  | code | jt | jf | k | none
  deriving DecidableEq, Repr

structure CheckReport where
  filter : Filter
  filterIdx : Nat
  field : ErrIdx
  fatal : Bool
  message : Message
  deriving DecidableEq, Repr

/-- The static variables of the file. `masks` is filled with `0xffff`. -/
structure CheckState where
  masks : Nat → BitVec 16
  memValid : BitVec 16
  fatalCount : Nat
  errorCount : Nat
  reports : List CheckReport

def CheckState.start : CheckState :=
  { masks := fun _ => 0xffff, memValid := 0, fatalCount := 0, errorCount := 0, reports := [] }

def validCodes : List Nat :=
  [0x20, 0x80, 0x81, 0x06, 0x16, 0x04, 0x0c, 0x14, 0x1c, 0x24, 0x2c, 0x34, 0x3c, 0x54, 0x5c,
    0x44, 0x4c, 0xa4, 0xac, 0x64, 0x6c, 0x74, 0x7c, 0x84, 0x00, 0x01, 0x07, 0x87, 0x60, 0x61,
    0x02, 0x03, 0x05, 0x15, 0x1d, 0x35, 0x3d, 0x25, 0x2d, 0x45, 0x4d]

def maxValidInsn : Nat := 172

/-- `insn_name_map[code]`: the 1-based row of a valid opcode, 0 for the others. -/
def insnNameMap (code : Nat) : Nat :=
  match validCodes.idxOf? code with
  | some row => row + 1
  | none => 0

def CheckState.reportError (state : CheckState) (f : Filter) (filterIdx : Nat) (field : ErrIdx)
    (fatal : Bool) (message : Message) : CheckState :=
  { state with
    fatalCount := if fatal then state.fatalCount + 1 else state.fatalCount
    errorCount := if fatal then state.errorCount else state.errorCount + 1
    reports := state.reports ++ [{ filter := f, filterIdx, field, fatal, message }] }

def CheckState.mergeMask (state : CheckState) (idx : Nat) : CheckState :=
  { state with masks := Function.update state.masks idx (state.masks idx &&& state.memValid) }

def bit16 (slot : Nat) : BitVec 16 := 1#16 <<< slot

def checkFilter (prog : List Filter) (pc flen : Nat) (state : CheckState) : CheckState :=
  match prog[pc]? with
  | none => state
  | some f =>
      let code := f.code.toNat
      let k := f.k.toNat
      let report := state.reportError f (pc + 1)
      if code > maxValidInsn || insnNameMap code = 0 then
        report .none true .invalidOperation
      else
        match code with
        | 0x20 => -- BPF_LD | BPF_W | BPF_ABS; the report shows the rewritten opcode
            let rewritten := { f with code := 0x21 }
            if k ≥ seccompDataSize then
              state.reportError rewritten (pc + 1) .k true .attrOffsetOverflow
            else if k % 4 ≠ 0 then
              state.reportError rewritten (pc + 1) .k true .invalidAttrLoad
            else state
        | 0x34 => -- BPF_ALU | BPF_DIV | BPF_K
            if k = 0 then report .k false .aluDivByZero else state
        | 0x64 | 0x74 => -- BPF_ALU | BPF_LSH | BPF_K and BPF_RSH
            if k ≥ 32 then report .k false .aluShOutOfRange else state
        | 0x60 | 0x61 => -- BPF_LD | BPF_MEM and BPF_LDX
            if k ≥ bpfMemWords then report .k false .memIdxOutOfRange
            else if state.memValid &&& bit16 k = 0#16 then report .k false .uninitializedMem
            else state
        | 0x02 | 0x03 => -- BPF_ST and BPF_STX
            if k ≥ bpfMemWords then report .k false .memIdxOutOfRange
            else { state with memValid := state.memValid ||| bit16 k }
        | 0x05 => -- BPF_JMP | BPF_JA
            if k ≥ flen - pc - 1 then report .k false .jaOutOfFilters
            else { state.mergeMask (pc + 1 + k) with memValid := 0xffff }
        | 0x15 | 0x1d | 0x35 | 0x3d | 0x25 | 0x2d | 0x45 | 0x4d => -- BPF_JMP | BPF_Jxx
            if pc + f.jt.toNat + 1 ≥ flen then report .jt false .jtInvalidTag
            else if pc + f.jf.toNat + 1 ≥ flen then report .jf false .jfInvalidTag
            else
              { (state.mergeMask (pc + 1 + f.jt.toNat)).mergeMask (pc + 1 + f.jf.toNat) with
                memValid := 0xffff }
        | _ => state

/-- The loop of `check_prog`, from filter `pc` on; it gives up after six fatal errors. -/
def checkLoop (check : Nat → CheckState → CheckState) : Nat → Nat → CheckState → CheckState
  | 0, _, state => state
  | left + 1, pc, state =>
      let checked := check pc state
      if checked.fatalCount > 5 then checked
      else checkLoop check left (pc + 1) checked

def checkLast (prog : List Filter) (state : CheckState) : CheckState :=
  match prog.getLast? with
  | none => state
  | some last =>
      if state.fatalCount > 5 then state
      else if last.code ≠ 0x16 ∧ last.code ≠ 0x06 then
        state.reportError last prog.length .none false .mustEndWithRet
      else state

def checkProgState (prog : List Filter) : CheckState :=
  checkLast prog
    (checkLoop (fun pc => checkFilter prog pc prog.length) prog.length 0 .start)

/-- `check_prog`: a fatal error ends the program, otherwise the flag tells the
caller to skip `render`. -/
def checkProg (prog : List Filter) : Except Message Bool :=
  let state := checkProgState prog
  if state.fatalCount ≠ 0 then .error .disasmTerminated
  else .ok (decide (state.errorCount ≠ 0))

/-- What `checkFilter` asks of an instruction it reports nothing about. -/
def Insn.Admissible (pc flen : Nat) (memValid : BitVec 16) : Insn → Prop
  | .ldAbs k => k.toNat < seccompDataSize ∧ k.toNat % 4 = 0
  | .alu .div (.k value) => value.toNat ≠ 0
  | .alu .lsh (.k value) | .alu .rsh (.k value) => value.toNat < 32
  | .ldMem _ k => k.toNat < bpfMemWords ∧ memValid &&& bit16 k.toNat ≠ 0#16
  | .st _ k => k.toNat < bpfMemWords
  | .ja k => k.toNat < flen - pc - 1
  | .jmp _ _ jt jf => pc + jt.toNat + 1 < flen ∧ pc + jf.toNat + 1 < flen
  | _ => True

def Insn.targets (pc : Nat) : Insn → List Nat
  | .ja k => [pc + 1 + k.toNat]
  | .jmp _ _ jt jf => [pc + 1 + jt.toNat, pc + 1 + jf.toNat]
  | _ => []

def Insn.validAfter (memValid : BitVec 16) : Insn → BitVec 16
  | .st _ k => memValid ||| bit16 k.toNat
  | .ja _ | .jmp .. => 0xffff
  | _ => memValid

def Insn.masksAfter (pc : Nat) (insn : Insn) (memValid : BitVec 16) (masks : Nat → BitVec 16) :
    Nat → BitVec 16 :=
  Forward.absorb (· &&& ·) masks ((insn.targets pc).map fun idx => (idx, memValid))

def CheckState.Clean (state : CheckState) : Prop :=
  state.fatalCount = 0 ∧ state.errorCount = 0

theorem valid_code_iff (f : Filter) :
    ¬ (f.code.toNat > maxValidInsn || insnNameMap f.code.toNat = 0) = true ↔
      ∃ insn, f.insn? = some insn := by
  constructor
  · intro valid
    have listed : f.code.toNat ∈ validCodes := by
      by_contra absent
      apply valid
      have none : validCodes.idxOf? f.code.toNat = none := List.idxOf?_eq_none_iff.mpr absent
      simp [insnNameMap, none]
    simp only [validCodes, List.mem_cons, List.not_mem_nil, or_false] at listed
    unfold Filter.insn?
    rcases listed with h | h | h | h | h | h | h | h | h | h | h | h | h | h | h | h | h | h | h |
      h | h | h | h | h | h | h | h | h | h | h | h | h | h | h | h | h | h | h | h | h | h <;>
      rw [h] <;> exact ⟨_, rfl⟩
  · rintro ⟨insn, found⟩
    unfold Filter.insn? at found
    split at found
    all_goals first
      | (next same => rw [same]; decide)
      | cases found

def Reported (checked state : CheckState) : Prop :=
  ∃ shown filterIdx field fatal message,
    checked = state.reportError shown filterIdx field fatal message

theorem reported (state : CheckState) (shown : Filter) (filterIdx : Nat) (field : ErrIdx)
    (fatal : Bool) (message : Message) :
    Reported (state.reportError shown filterIdx field fatal message) state :=
  ⟨shown, filterIdx, field, fatal, message, rfl⟩

/-- One filter with a valid opcode: either it is admissible and only the masks
move, or one report is added and nothing else changes. -/
theorem check_filter_valid (prog : List Filter) (pc flen : Nat) (state : CheckState) (f : Filter)
    (insn : Insn) (fetched : prog[pc]? = some f) (valid : f.insn? = some insn) :
    (insn.Admissible pc flen state.memValid ∧
      checkFilter prog pc flen state =
        { state with
          masks := insn.masksAfter pc state.memValid state.masks
          memValid := insn.validAfter state.memValid }) ∨
    (¬ insn.Admissible pc flen state.memValid ∧
      Reported (checkFilter prog pc flen state) state) := by
  have listed := (valid_code_iff f).mpr ⟨insn, valid⟩
  have code : f.code.toNat = insn.code.toNat := by rw [insn_code f insn valid]
  have fields := insn_over f insn valid
  -- by instruction: what `check_filter` compares, and the report where it fails
  unfold checkFilter
  simp only [fetched]
  rw [if_neg listed, code]
  cases insn with
  | ldAbs k =>
      simp only [Insn.over, Insn.ldAbs.injEq] at fields
      subst fields
      rcases Nat.lt_or_ge f.k.toNat seccompDataSize with small | large
      · by_cases aligned : f.k.toNat % 4 = 0
        · exact Or.inl ⟨⟨small, aligned⟩, by simp [Insn.code, Nat.not_le.mpr small, aligned]; rfl⟩
        · refine Or.inr ⟨fun both => aligned both.2, ?_⟩
          simp [Insn.code, Nat.not_le.mpr small, aligned]
          exact reported ..
      · refine Or.inr ⟨fun both => Nat.not_le.mpr both.1 large, ?_⟩
        simp [Insn.code, large]
        exact reported ..
  | ldLen dst => exact Or.inl ⟨trivial, by cases dst <;> rfl⟩
  | ldImm dst k => exact Or.inl ⟨trivial, by cases dst <;> rfl⟩
  | ldMem dst k =>
      simp only [Insn.over, Insn.ldMem.injEq, true_and] at fields
      subst fields
      have same : (Insn.ldMem dst f.k).code.toNat = 0x60 ∨
          (Insn.ldMem dst f.k).code.toNat = 0x61 := by cases dst <;> simp [Insn.code, Reg.ldClass]
      rcases Nat.lt_or_ge f.k.toNat bpfMemWords with small | large
      · by_cases unset : state.memValid &&& bit16 f.k.toNat = 0#16
        · refine Or.inr ⟨fun both => both.2 unset, ?_⟩
          rcases same with same | same <;> simp [same, Nat.not_le.mpr small, unset] <;> exact reported ..
        · refine Or.inl ⟨⟨small, unset⟩, ?_⟩
          rcases same with same | same <;> simp [same, Nat.not_le.mpr small, unset] <;> rfl
      · refine Or.inr ⟨fun both => Nat.not_le.mpr both.1 large, ?_⟩
        rcases same with same | same <;> simp [same, large] <;> exact reported ..
  | st src k =>
      simp only [Insn.over, Insn.st.injEq, true_and] at fields
      subst fields
      have same : (Insn.st src f.k).code.toNat = 0x02 ∨ (Insn.st src f.k).code.toNat = 0x03 := by
        cases src <;> simp [Insn.code, Reg.stClass]
      rcases Nat.lt_or_ge f.k.toNat bpfMemWords with small | large
      · refine Or.inl ⟨small, ?_⟩
        rcases same with same | same <;>
          simp [same, Nat.not_le.mpr small, Insn.masksAfter, Insn.targets, Insn.validAfter,
            Forward.absorb]
      · refine Or.inr ⟨fun both => Nat.not_le.mpr both large, ?_⟩
        rcases same with same | same <;> simp [same, large] <;> exact reported ..
  | alu op src =>
      cases src with
      | x => exact Or.inl ⟨by cases op <;> trivial, by cases op <;> rfl⟩
      | k value =>
          simp only [Insn.over, Insn.alu.injEq, Src.k.injEq, true_and] at fields
          subst fields
          cases op with
          | div =>
              by_cases zero : f.k.toNat = 0
              · exact Or.inr ⟨fun both => both zero,
                  by simp [Insn.code, AluOp.bits, Src.bit, zero]; exact reported ..⟩
              · exact Or.inl ⟨zero, by simp [Insn.code, AluOp.bits, Src.bit, zero]; rfl⟩
          | lsh | rsh =>
              rcases Nat.lt_or_ge f.k.toNat 32 with small | large
              · exact Or.inl ⟨small,
                  by simp [Insn.code, AluOp.bits, Src.bit, Nat.not_le.mpr small]; rfl⟩
              · exact Or.inr ⟨fun both => Nat.not_le.mpr both large,
                  by simp [Insn.code, AluOp.bits, Src.bit, large]; exact reported ..⟩
          | add | sub | mul | or | and | xor =>
              exact Or.inl ⟨trivial, by simp [Insn.code, AluOp.bits, Src.bit]; rfl⟩
  | neg | tax | txa | retA => exact Or.inl ⟨trivial, rfl⟩
  | retK k => exact Or.inl ⟨trivial, rfl⟩
  | ja k =>
      simp only [Insn.over, Insn.ja.injEq] at fields
      subst fields
      rcases Nat.lt_or_ge f.k.toNat (flen - pc - 1) with small | large
      · exact Or.inl ⟨small, by
          simp [Insn.code, Nat.not_le.mpr small, Insn.masksAfter, Insn.targets, Insn.validAfter,
            CheckState.mergeMask, Forward.absorb, Forward.absorbOne]⟩
      · exact Or.inr ⟨fun both => Nat.not_le.mpr both large,
          by simp [Insn.code, large]; exact reported ..⟩
  | jmp op src jt jf =>
      have fields : f.jt = jt ∧ f.jf = jf := by
        cases src <;> simp_all [Insn.over]
      obtain ⟨rfl, rfl⟩ := fields
      have same : (Insn.jmp op src f.jt f.jf).code.toNat ∈
          [0x15, 0x1d, 0x35, 0x3d, 0x25, 0x2d, 0x45, 0x4d] := by
        cases op <;> cases src <;> simp [Insn.code, JmpOp.bits, Src.bit]
      simp only [List.mem_cons, List.not_mem_nil, or_false] at same
      rcases Nat.lt_or_ge (pc + f.jt.toNat + 1) flen with near | far
      · rcases Nat.lt_or_ge (pc + f.jf.toNat + 1) flen with near' | far'
        · refine Or.inl ⟨⟨near, near'⟩, ?_⟩
          rcases same with same | same | same | same | same | same | same | same <;>
            simp [same, Nat.not_le.mpr near, Nat.not_le.mpr near', Insn.masksAfter, Insn.targets,
              Insn.validAfter, CheckState.mergeMask, Forward.absorb, Forward.absorbOne]
        · refine Or.inr ⟨fun both => Nat.not_le.mpr both.2 far', ?_⟩
          rcases same with same | same | same | same | same | same | same | same <;>
            simp [same, Nat.not_le.mpr near, far'] <;> exact reported ..
      · refine Or.inr ⟨fun both => Nat.not_le.mpr both.1 far, ?_⟩
        rcases same with same | same | same | same | same | same | same | same <;>
          simp [same, far] <;> exact reported ..

abbrev Entry := Nat → (Nat → BitVec 16) → BitVec 16 → BitVec 16

/-- `check_filter` looks at the mask carried along and at nothing else. -/
def carried : Entry := fun _ _ memValid => memValid

/-- The kernel first intersects it with what the jumps to this filter recorded;
`resolver` does the same with `mem_valid &= masks[i]`. -/
def merged : Entry := fun pc masks memValid => memValid &&& masks pc

def checkFilterFrom (enter : Entry) (prog : List Filter) (pc : Nat) (state : CheckState) :
    CheckState :=
  checkFilter prog pc prog.length
    { state with memValid := enter pc state.masks state.memValid }

def checkProgFrom (enter : Entry) (prog : List Filter) : CheckState :=
  checkLast prog (checkLoop (checkFilterFrom enter prog) prog.length 0 .start)

structure Masks where
  masks : Nat → BitVec 16
  memValid : BitVec 16

def Masks.start : Masks := { masks := fun _ => 0xffff, memValid := 0 }

def Insn.flow (pc : Nat) (insn : Insn) (before : Masks) : Masks :=
  { masks := insn.masksAfter pc before.memValid before.masks
    memValid := insn.validAfter before.memValid }

def Masks.entered (enter : Entry) (pc : Nat) (before : Masks) : Masks :=
  { before with memValid := enter pc before.masks before.memValid }

def masksBefore (enter : Entry) (prog : List Filter) : Nat → Masks
  | 0 => .start
  | pc + 1 =>
      match insnAt prog pc with
      | none => masksBefore enter prog pc
      | some insn => insn.flow pc ((masksBefore enter prog pc).entered enter pc)

def masksAt (enter : Entry) (prog : List Filter) (pc : Nat) : Masks :=
  (masksBefore enter prog pc).entered enter pc

end Ceccomp
