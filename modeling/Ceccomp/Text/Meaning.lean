import Ceccomp.Disasm.Decoded
import Ceccomp.Text.Asm
import Ceccomp.Text.Numbering

/-!
The instruction a resolved statement stands for. `asm_statement` emits it, and a
shaped statement that the resolver reports nothing about stands for one that
`check_filter` admits.
-/

namespace Ceccomp

def Obj.src? (obj : Obj) : Option Src :=
  if obj.type = .X then some .x
  else if obj.type = .number then some (.k obj.data)
  else none

inductive AssignLine.Stands (line : AssignLine) : Insn → Prop where
  | neg (left : line.leftVar.type = .A) (operator : line.operator = .negative)
      (right : line.rightVar.type = .A) : Stands line .neg
  | alu (op : AluOp) (src : Src) (left : line.leftVar.type = .A)
      (operator : line.operator = op.type) (right : line.rightVar.src? = some src) :
      Stands line (.alu op src)
  | txa (left : line.leftVar.type = .A) (operator : line.operator = .equal)
      (right : line.rightVar.type = .X) : Stands line .txa
  | tax (left : line.leftVar.type = .X) (operator : line.operator = .equal)
      (right : line.rightVar.type = .A) : Stands line .tax
  | ldImm (dst : Reg) (left : line.leftVar.type = dst.type) (operator : line.operator = .equal)
      (right : line.rightVar.type = .number) : Stands line (.ldImm dst line.rightVar.data)
  | ldMem (dst : Reg) (left : line.leftVar.type = dst.type) (operator : line.operator = .equal)
      (right : line.rightVar.type = .mem) : Stands line (.ldMem dst line.rightVar.data)
  | ldLen (dst : Reg) (left : line.leftVar.type = dst.type) (operator : line.operator = .equal)
      (right : line.rightVar.type = .attrLen) (zero : line.rightVar.data = 0) :
      Stands line (.ldLen dst)
  | ldAbs (offset : Word) (left : line.leftVar.type = .A) (operator : line.operator = .equal)
      (right : Asm.offsetAbs line.rightVar = some offset) : Stands line (.ldAbs offset)
  | st (src : Reg) (left : line.leftVar.type = .mem) (operator : line.operator = .equal)
      (right : line.rightVar.type = src.type) : Stands line (.st src line.leftVar.data)

/-- `reversed` says that the comparator is the negation of the one BPF has. -/
inductive JumpLine.Stands (line : JumpLine) : Insn → Prop where
  | ja (plain : line.ifCondition = false) : Stands line (.ja (BitVec.ofNat 32 line.jt.codeNr))
  | jmp (op : JmpOp) (src : Src) (reversed : Bool) (conditional : line.ifCondition = true)
      (comparator : line.comparator = if reversed then op.reverseType else op.type)
      (able : reversed = true → op ≠ .jset) (operand : line.cmpobj.src? = some src) :
      Stands line
        (.jmp op src
          (BitVec.ofNat 8 (if reversed ^^ line.ifBang then line.jf.codeNr else line.jt.codeNr))
          (BitVec.ofNat 8 (if reversed ^^ line.ifBang then line.jt.codeNr else line.jf.codeNr)))

inductive ReturnLine.Stands (line : ReturnLine) : Insn → Prop where
  | a (type : line.retObj.type = .A) : Stands line .retA
  | number (type : line.retObj.type = .number) : Stands line (.retK line.retObj.data)
  | action (value : Word) (type : Asm.retvals line.retObj.type = some value) :
      Stands line (.retK (value ||| line.retObj.data))

def Line.Stands (line : Line) (insn : Insn) : Prop :=
  match line with
  | .assign line => line.Stands insn
  | .jump line => line.Stands insn
  | .return_ line => line.Stands insn
  | .empty | .eof | .error _ => False

theorem src_cases (obj : Obj) (src : Src) (operand : obj.src? = some src) :
    (obj.type = .X ∧ src = .x) ∨ (obj.type = .number ∧ src = .k obj.data) := by
  unfold Obj.src? at operand
  split at operand
  · next x => exact Or.inl ⟨x, (Option.some.inj operand).symm⟩
  · split at operand
    · next number => exact Or.inr ⟨number, (Option.some.inj operand).symm⟩
    · cases operand

theorem asm_alu (op : AluOp) :
    op.type.fromTo .addTo .xorTo = true ∧ Asm.operatorTable op.type = some op.bits := by
  cases op <;> exact ⟨rfl, rfl⟩

theorem asm_assign (line : AssignLine) (insn : Insn) (stands : line.Stands insn) :
    Asm.assignLine line = some insn.filter := by
  unfold Asm.assignLine
  cases stands with
  | neg left operator right =>
      simp only [operator]
      rfl
  | alu op src left operator right =>
      obtain ⟨range, bits⟩ := asm_alu op
      unfold Asm.aluLine
      rw [operator, if_pos range, bits]
      rcases src_cases _ _ right with ⟨type, rfl⟩ | ⟨type, rfl⟩ <;>
        simp [type, Insn.filter, Insn.code, Insn.jt, Insn.jf, Insn.k, Src.bit, Src.imm]
  | txa left operator right =>
      simp only [operator, left, Asm.ldLine, right]
      rfl
  | tax left operator right =>
      simp only [operator, left, Asm.ldxLine, right]
      rfl
  | ldImm dst left operator right =>
      simp only [operator, left, right, Asm.ldLine, Asm.ldxLine]
      cases dst <;> rfl
  | ldMem dst left operator right =>
      simp only [operator, left, right, Asm.ldLine, Asm.ldxLine]
      cases dst <;> rfl
  | ldLen dst left operator right zero =>
      simp only [operator, left, right, Asm.ldLine, Asm.ldxLine, zero]
      cases dst <;> rfl
  | ldAbs offset left operator right =>
      have attr : Asm.offsetTable line.rightVar.type ≠ none := by
        intro absent
        simp [Asm.offsetAbs, absent] at right
      have other : line.rightVar.type ≠ .X ∧ line.rightVar.type ≠ .attrLen ∧
          line.rightVar.type ≠ .number ∧ line.rightVar.type ≠ .mem := by
        refine ⟨?_, ?_, ?_, ?_⟩ <;> intro same <;> exact attr (by rw [same]; rfl)
      simp only [operator, left, Asm.ldLine, other, right]
      rfl
  | st src left operator right =>
      simp only [operator, left, Asm.stStxLine, right]
      cases src <;> rfl

theorem asm_jump (line : JumpLine) (insn : Insn) (stands : line.Stands insn) :
    Asm.jumpLine line = some insn.filter := by
  unfold Asm.jumpLine
  cases stands with
  | ja plain =>
      simp only [plain]
      rfl
  | jmp op src reversed conditional comparator able operand =>
      have table : Asm.comparatorTable line.comparator = some op.bits := by
        rw [comparator]
        cases op <;> cases reversed <;> rfl
      have symReverse : (line.comparator == .bangEqual || line.comparator == .lessEqual ||
          line.comparator == .lessThan) = reversed := by
        rw [comparator]
        cases op <;> cases reversed <;> first | rfl | exact absurd rfl (able rfl)
      simp only [conditional, table, symReverse]
      rcases src_cases _ _ operand with ⟨type, rfl⟩ | ⟨type, rfl⟩ <;>
        cases reversed <;> cases line.ifBang <;>
        simp [type, Insn.filter, Insn.code, Insn.jt, Insn.jf, Insn.k, Src.bit, Src.imm]

theorem asm_return (line : ReturnLine) (insn : Insn) (stands : line.Stands insn) :
    Asm.returnLine line = some insn.filter := by
  unfold Asm.returnLine
  cases stands with
  | a type =>
      simp only [type]
      rfl
  | number type =>
      simp only [type]
      rfl
  | action value type =>
      have other : line.retObj.type ≠ .A ∧ line.retObj.type ≠ .number := by
        constructor <;> intro same <;> simp [Asm.retvals, same] at type
      simp only [other, type]
      rfl

/-- The encoder emits the instruction a statement stands for, with zeros in every
field the kernel ignores. -/
theorem asm_stands (statement : Statement) (insn : Insn) (stands : statement.line.Stands insn) :
    asmStatement statement = some insn.filter := by
  unfold asmStatement
  cases line : statement.line with
  | assign l => exact asm_assign l insn (by simpa [Line.Stands, line] using stands)
  | jump l => exact asm_jump l insn (by simpa [Line.Stands, line] using stands)
  | return_ l => exact asm_return l insn (by simpa [Line.Stands, line] using stands)
  | empty | eof | error e => simp [Line.Stands, line] at stands

end Ceccomp
