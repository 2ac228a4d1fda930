import Ceccomp.Disasm.Decoder

/-!
What `decode_filters` makes of a program that `check_prog` accepts: one statement
for each instruction, numbered from 1.
-/

namespace Ceccomp

def Reg.type : Reg → TokenType
  | .A => .A
  | .X => .X

def Src.obj : Src → Obj
  | .k value => .number value
  | .x => .of .X

def AluOp.type : AluOp → TokenType
  | .add => .addTo
  | .sub => .subTo
  | .mul => .multiTo
  | .div => .divideTo
  | .or => .orTo
  | .and => .andTo
  | .lsh => .lshTo
  | .rsh => .rshTo
  | .xor => .xorTo

def JmpOp.type : JmpOp → TokenType
  | .jeq => .equalEqual
  | .jgt => .greaterThan
  | .jge => .greaterEqual
  | .jset => .and

/-- The comparator that holds exactly when the original does not; `JSET` has none. -/
def JmpOp.reverseType : JmpOp → TokenType
  | .jeq => .bangEqual
  | .jgt => .lessEqual
  | .jge => .lessThan
  | .jset => .and

def attrObj (k : Word) : Obj :=
  match absTable (k.toNat / 4) with
  | some type =>
      if type = .attrLowarg ∨ type = .attrHigharg then
        .at type (BitVec.ofNat 32 ((k.toNat - 16) / 8))
      else .of type
  | none => .of .attrLen

def AssignLine.mk' (left : Obj) (operator : TokenType) (right : Obj) : Line :=
  .assign { leftVar := left, operator, rightVar := right }

def Label.to (codeNr : Nat) : Label := { key := none, codeNr }

/-- A conditional jump is shown with its branches swapped when only the false one
moves, so that what is printed always has a target worth naming. -/
def jmpShown (op : JmpOp) (src : Src) (jt jf : BitVec 8) : JumpLine :=
  let swapped := decide (jt = 0 ∧ jf ≠ 0)
  { ifBang := swapped && decide (op = .jset)
    ifCondition := true
    cmptype := .number
    comparator := if swapped then op.reverseType else op.type
    cmpobj := src.obj
    jt := .to (if swapped then jf.toNat else jt.toNat)
    jf := .to (if swapped then jt.toNat else jf.toNat) }

def jaShown (k : Word) : JumpLine :=
  { ifBang := false, ifCondition := false, cmptype := .number, comparator := .archX86,
    cmpobj := .of .archX86, jt := .to (k.toNat % 2 ^ 16), jf := .zero }

def Insn.line : Insn → Line
  | .ldAbs k => AssignLine.mk' (.of .A) .equal (attrObj k)
  | .ldLen dst => AssignLine.mk' (.of dst.type) .equal (.of .attrLen)
  | .ldImm dst k => AssignLine.mk' (.of dst.type) .equal (.number k)
  | .ldMem dst k => AssignLine.mk' (.of dst.type) .equal (.at .mem k)
  | .st src k => AssignLine.mk' (.at .mem k) .equal (.of src.type)
  | .alu op src => AssignLine.mk' (.of .A) op.type src.obj
  | .neg => AssignLine.mk' (.of .A) .negative (.of .A)
  | .tax => AssignLine.mk' (.of .X) .equal (.of .A)
  | .txa => AssignLine.mk' (.of .A) .equal (.of .X)
  | .ja k => .jump (jaShown k)
  | .jmp op src jt jf => .jump (jmpShown op src jt jf)
  | .retA => .return_ { retObj := .of .A, realObj := .of .archX86 }
  | .retK k => .return_ { retObj := (decodeReturnK (.of .archX86) k).1, realObj := .of .archX86 }

def Insn.remark : Insn → Text
  | .ldLen _ => scmpDataLenStr
  | _ => []

def Insn.statement (codeNr : Nat) (insn : Insn) : Statement :=
  { line := insn.line, labelDecl := none, textNr := codeNr, codeNr
    lineStart := insn.remark, comment := some 0, lineLen := insn.remark.length }

theorem abs_table_inside (idx : Nat) (inside : idx < 16) : ∃ type, absTable idx = some type := by
  have all : ∀ idx < 16, (absTable idx).isSome := by decide
  exact Option.isSome_iff_exists.mp (all idx inside)

theorem ld_right_abs (f : Filter) (code : f.code = 0x20) (inside : f.k.toNat < seccompDataSize) :
    Decoder.ldRight f = some (attrObj f.k) := by
  simp only [seccompDataSize] at inside
  obtain ⟨type, found⟩ := abs_table_inside (f.k.toNat / 4) (by omega)
  simp [Decoder.ldRight, attrObj, found, code, bpfMode]

theorem condition_insn (f : Filter) (op : JmpOp) (src : Src) (jt jf : BitVec 8)
    (code : f.code = (Insn.jmp op src jt jf).code) (operand : ∀ value, src = .k value → f.k = value)
    (swapped : Bool) :
    Decoder.condition f swapped =
      some (if swapped then op.reverseType else op.type, src.obj,
        swapped && decide (op = .jset)) := by
  unfold Decoder.condition
  rw [code]
  cases src with
  | x =>
      cases op <;> cases swapped <;>
        simp [Insn.code, JmpOp.bits, Src.bit, bpfOp, bpfSrc, rsh4, comparatorTable, reverseTable,
          Src.obj, JmpOp.type, JmpOp.reverseType]
  | k value =>
      rw [operand value rfl]
      cases op <;> cases swapped <;>
        simp [Insn.code, JmpOp.bits, Src.bit, bpfOp, bpfSrc, rsh4, comparatorTable, reverseTable,
          Src.obj, JmpOp.type, JmpOp.reverseType]

theorem decode_filter_insn (f : Filter) (insn : Insn) (valid : f.insn? = some insn)
    (inside : ∀ k, insn = .ldAbs k → k.toNat < seccompDataSize) (codeNr : Nat) :
    decodeFilter f { Statement.zero with textNr := codeNr, codeNr } =
      some (insn.statement codeNr) := by
  have code := insn_code f insn valid
  have fields := insn_over f insn valid
  cases insn with
  | ldAbs k =>
      simp only [Insn.over, Insn.ldAbs.injEq] at fields
      subst fields
      have right := ld_right_abs f code (inside f.k rfl)
      simp [decodeFilter, code, Insn.code, bpfClass, Decoder.ldLdxLine, right, bpfMode,
        Insn.statement, Insn.line, Insn.remark, AssignLine.mk', Statement.zero]
  | ldLen dst =>
      cases dst <;>
        simp [decodeFilter, code, Insn.code, Reg.ldClass, bpfClass, Decoder.ldLdxLine,
          Decoder.ldRight, bpfMode, Insn.statement, Insn.line, Insn.remark, AssignLine.mk',
          Reg.type, Statement.zero]
  | ldImm dst k | ldMem dst k =>
      cases dst <;> simp only [Insn.over, Insn.ldImm.injEq, Insn.ldMem.injEq, true_and] at fields <;>
        subst fields <;>
        simp [decodeFilter, code, Insn.code, Reg.ldClass, bpfClass, Decoder.ldLdxLine,
          Decoder.ldRight, bpfMode, Insn.statement, Insn.line, Insn.remark, AssignLine.mk',
          Reg.type, Statement.zero]
  | st src k =>
      cases src <;> simp only [Insn.over, Insn.st.injEq, true_and] at fields <;> subst fields <;>
        simp [decodeFilter, code, Insn.code, Reg.stClass, bpfClass, Decoder.stStxLine,
          Insn.statement, Insn.line, Insn.remark, AssignLine.mk', Reg.type, Statement.zero]
  | alu op src =>
      cases src with
      -- the class bits tell A from X, so both registers are run
      | x =>
          cases op <;>
            simp [decodeFilter, code, Insn.code, AluOp.bits, Src.bit, bpfClass, Decoder.aluLine,
              operatorTable, rsh4, bpfOp, bpfSrc, Insn.statement, Insn.line, Insn.remark,
              AssignLine.mk', AluOp.type, Src.obj, Statement.zero]
      | k value =>
          simp only [Insn.over, Insn.alu.injEq, Src.k.injEq, true_and] at fields
          subst fields
          cases op <;>
            simp [decodeFilter, code, Insn.code, AluOp.bits, Src.bit, bpfClass, Decoder.aluLine,
              operatorTable, rsh4, bpfOp, bpfSrc, Insn.statement, Insn.line, Insn.remark,
              AssignLine.mk', AluOp.type, Src.obj, Statement.zero]
  | neg =>
      simp [decodeFilter, code, Insn.code, bpfClass, Decoder.aluLine, operatorTable, rsh4, bpfOp,
        bpfSrc, Insn.statement, Insn.line, Insn.remark, AssignLine.mk', Statement.zero]
  | tax | txa =>
      simp [decodeFilter, code, Insn.code, bpfClass, Decoder.miscLine, bpfMiscOp,
        Insn.statement, Insn.line, Insn.remark, AssignLine.mk', Statement.zero]
  | ja k =>
      simp only [Insn.over, Insn.ja.injEq] at fields
      subst fields
      simp [decodeFilter, code, Insn.code, bpfClass, Decoder.jumpLine, bpfOp,
        Insn.statement, Insn.line, Insn.remark, jaShown, Label.to, Statement.zero]
  | jmp op src jt jf =>
      -- the operand k is only compared when the source bit is clear
      have fields : f.jt = jt ∧ f.jf = jf ∧ (∀ value, src = .k value → f.k = value) := by
        cases src <;> simp_all [Insn.over]
      obtain ⟨rfl, rfl, operand⟩ := fields
      have shown := condition_insn f op src f.jt f.jf code operand (decide (f.jt = 0 ∧ f.jf ≠ 0))
      have conditional : bpfOp f.code ≠ 0x00 := by
        rw [code]
        cases op <;> cases src <;> simp [Insn.code, JmpOp.bits, Src.bit, bpfOp]
      have jumps : (bpfClass f.code).toNat = 0x05 := by
        rw [code]
        cases op <;> cases src <;> simp [Insn.code, JmpOp.bits, Src.bit, bpfClass]
      simp only [decodeFilter, jumps, Decoder.jumpLine, if_neg conditional, shown, Option.map_some]
      rfl
  | retA =>
      simp [decodeFilter, code, Insn.code, bpfClass, Decoder.returnLine, bpfRval,
        Insn.statement, Insn.line, Insn.remark, Statement.zero]
  | retK k =>
      simp only [Insn.over, Insn.retK.injEq] at fields
      subst fields
      simp [decodeFilter, code, Insn.code, bpfClass, Decoder.returnLine, bpfRval,
        Insn.statement, Insn.line, Insn.remark, Statement.zero]

theorem decode_from_insns (rest : List Filter) (i : Nat)
    (insns : ∀ f ∈ rest, ∃ insn, f.insn? = some insn ∧
      ∀ k, insn = .ldAbs k → k.toNat < seccompDataSize) :
    ∃ shown, decodeFrom i rest = some shown ∧ shown.length = rest.length ∧
      ∀ (n : Nat) (f : Filter) (insn : Insn), rest[n]? = some f → f.insn? = some insn →
        shown[n]? = some (insn.statement ((i + n + 1) % 2 ^ 16)) := by
  induction rest generalizing i with
  | nil => exact ⟨[], rfl, rfl, by simp⟩
  | cons first rest ih =>
      obtain ⟨later, decoded, length, each⟩ := ih (i + 1) (fun f member => insns f (by simp [member]))
      obtain ⟨insn, valid, inside⟩ := insns first (by simp)
      have head := decode_filter_insn first insn valid inside ((i + 1) % 2 ^ 16)
      refine ⟨insn.statement ((i + 1) % 2 ^ 16) :: later, ?_, by simp [length], ?_⟩
      · simp only [decodeFrom, head, decoded]
      · intro n f other found decodes
        cases n with
        | zero =>
            simp only [List.getElem?_cons_zero, Option.some.injEq] at found ⊢
            subst found
            rw [valid, Option.some.injEq] at decodes
            rw [decodes, Nat.add_zero]
        | succ n =>
            simp only [List.getElem?_cons_succ] at found ⊢
            rw [each n f other found decodes, show i + 1 + n + 1 = i + (n + 1) + 1 by omega]

/-- The statement vector of an accepted program, without the element that is skipped. -/
structure Decodes (prog : List Filter) (shown : List Statement) : Prop where
  decoded : decodeFilters prog false = .ok (some (Statement.zero :: shown), false)
  length : shown.length = prog.length
  each : ∀ pc insn, insnAt prog pc = some insn → shown[pc]? = some (insn.statement (pc + 1))

/-- `decode_filters` is defined on every accepted program whose numbers fit 16 bits. -/
theorem clean_decodes (prog : List Filter) (nonempty : prog ≠ []) (clean : CheckClean prog)
    (small : prog.length < 2 ^ 16) : ∃ shown, Decodes prog shown := by
  have passes := (check_clean_passes prog nonempty clean).1
  obtain ⟨shown, decoded, length, each⟩ := decode_from_insns prog 0 (by
    intro f member
    obtain ⟨pc, inside, rfl⟩ := List.mem_iff_getElem.mp member
    obtain ⟨insn, here, admissible⟩ := passes pc inside
    refine ⟨insn, by simpa [insnAt, List.getElem?_eq_getElem inside] using here, ?_⟩
    rintro k rfl
    exact admissible.1)
  refine ⟨shown, ?_, length, ?_⟩
  · have silent : checkProg prog = .ok false := by
      have fatal : (checkProgState prog).fatalCount = 0 := clean.1
      have error : (checkProgState prog).errorCount = 0 := clean.2
      simp [checkProg, fatal, error]
    simp [decodeFilters, silent, decoded, Except.map]
  · intro pc insn here
    obtain ⟨f, found, valid⟩ := Option.bind_eq_some_iff.mp here
    have inside : pc < prog.length := (List.getElem?_eq_some_iff.mp found).1
    rw [each pc f insn found valid, Nat.zero_add, Nat.mod_eq_of_lt (by omega)]

end Ceccomp
