import Ceccomp.Emu.Ready

/-!
What `assign_line` and `jump_line` do to the variables, by the instruction that the
statement stands for. Only a shift by `$X` changes more than its left value.
-/

namespace Ceccomp

def Reg.cell : Reg → Cell
  | .A => .A
  | .X => .X

def dataCell (offset : Nat) : Cell :=
  match offset / 4 with
  | 0 => .syscallNr
  | 1 => .scmpArch
  | 2 => .lowPc
  | 3 => .highPc
  | word => if word % 2 = 0 then .lowArgs ((word - 4) / 2) else .highArgs ((word - 4) / 2)

def Src.emulated (vars : EmuVars) : Src → Word
  | .k value => value
  | .x => vars .X

/-- The variables behind an assignment; `none` when it was interrupted. -/
def Insn.emulated (vars : EmuVars) : Insn → Option EmuVars
  | .ldAbs k => some (Function.update vars .A (vars (dataCell k.toNat)))
  | .ldLen dst => some (Function.update vars dst.cell (vars .dataLen))
  | .ldImm dst k => some (Function.update vars dst.cell k)
  | .ldMem dst k => some (Function.update vars dst.cell (vars (.mem k.toNat)))
  | .st src k => some (Function.update vars (.mem k.toNat) (vars src.cell))
  | .alu op src =>
      if op = .div ∧ src.emulated vars = 0 then none
      else
        let vars :=
          if (op = .lsh ∨ op = .rsh) ∧ src = .x then Function.update vars .X (vars .X &&& 0x1f)
          else vars
        some (Function.update vars .A (op.eval (vars .A) (src.emulated vars)))
  | .neg => some (Function.update vars .A (-vars .A))
  | .tax => some (Function.update vars .X (vars .A))
  | .txa => some (Function.update vars .A (vars .X))
  | .ja _ | .jmp .. | .retA | .retK _ => some vars

/-- What is left of an assignment: whether it was interrupted and the variables. -/
def emulatedResult (line : AssignLine) (vars : EmuVars) (after : Option EmuVars) :
    Option (Bool × AssignLine × EmuVars) :=
  match after with
  | some after => some (false, line, after)
  | none => some (true, line, vars)

theorem data_cell_args (idx : Nat) :
    dataCell (16 + idx * 8) = .lowArgs idx ∧ dataCell (20 + idx * 8) = .highArgs idx := by
  have low : (16 + idx * 8) / 4 = 2 * idx + 4 := by omega
  have high : (20 + idx * 8) / 4 = 2 * idx + 5 := by omega
  unfold dataCell
  rw [low, high]
  constructor
  · simp
  · simp
    omega

theorem offset_abs_cell (right : Obj) (offset : Word) (found : Asm.offsetAbs right = some offset)
    (inside : right.type = .attrLowarg ∨ right.type = .attrHigharg → right.data.toNat ≤ 5) :
    right.type ≠ .number ∧
      ((Emu.varCell right.type).bind fun cell =>
        if Emu.indexed right.type then (Emu.advancePtr cell right.data.toNat).map .var
        else some (Emu.RightPtr.var cell)) = some (.var (dataCell offset.toNat)) := by
  obtain ⟨base, entry, rfl⟩ := Option.map_eq_some_iff.mp found
  have args (type : TokenType) (isArg : type = .attrLowarg ∨ type = .attrHigharg)
      (same : right.type = type) : right.data.toNat ≤ 5 := inside (same ▸ isArg)
  unfold Asm.offsetTable at entry
  split at entry
  case h_7 => cases entry
  case h_5 type =>
    cases entry
    have few := args _ (Or.inl rfl) type
    have cell := (data_cell_args right.data.toNat).1
    have exact_ : (BitVec.ofNat 32 (16 + right.data.toNat * 8)).toNat =
        16 + right.data.toNat * 8 := by
      rw [BitVec.toNat_ofNat]
      omega
    have small : right.data.toNat < 6 := by omega
    simp only [type, true_or, if_true, exact_, cell]
    simp [Emu.varCell, Emu.indexed, Emu.advancePtr, small]
  case h_6 type =>
    cases entry
    have few := args _ (Or.inr rfl) type
    have cell := (data_cell_args right.data.toNat).2
    have exact_ : (BitVec.ofNat 32 (20 + right.data.toNat * 8)).toNat =
        20 + right.data.toNat * 8 := by
      rw [BitVec.toNat_ofNat]
      omega
    have small : right.data.toNat < 6 := by omega
    simp only [type, or_true, if_true, exact_, cell]
    simp [Emu.varCell, Emu.indexed, Emu.advancePtr, small]
  all_goals
    next type =>
      cases entry
      simp [type, Emu.varCell, Emu.indexed, dataCell]

theorem low_five_bits (value : Word) : (value &&& 0x1f).toNat = value.toNat % 32 := by
  have mask : (0x1f : Word).toNat = 2 ^ 5 - 1 := rfl
  rw [BitVec.toNat_and, mask, Nat.and_two_pow_sub_one_eq_mod]

theorem shift_amount (value : Word) (small : value.toNat < 32) : value &&& 0x1f = value := by
  apply BitVec.eq_of_toNat_eq
  rw [low_five_bits, Nat.mod_eq_of_lt small]

section Arithmetic

variable (line : AssignLine) (op : AluOp) (left : line.leftVar.type = .A)
variable (operator : line.operator = op.type) (vars : EmuVars)

include left operator

theorem alu_x_emulated (type : line.rightVar.type = .X) :
    Emu.assignLine line vars = emulatedResult line vars ((Insn.alu op .x).emulated vars) := by
  have target : Emu.leftPtr line = some .A := by simp [Emu.leftPtr, left, type, Emu.varCell]
  have pointer : Emu.rightPtr line = some (.var .X) := by
    simp [Emu.rightPtr, type, Emu.varCell, Emu.indexed]
  unfold Emu.assignLine
  rw [target, pointer]
  cases op with
  | div =>
      by_cases zero : vars .X = 0#32
      · simp [operator, AluOp.type, Emu.readRight, Insn.emulated, Src.emulated, zero, emulatedResult]
      · simp [operator, AluOp.type, Emu.readRight, Insn.emulated, Src.emulated, zero, emulatedResult,
          AluOp.eval]
  | lsh | rsh =>
      have five := low_five_bits (vars .X)
      have again : (vars .X &&& 0x1f).toNat % 32 = (vars .X &&& 0x1f).toNat := by
        rw [five, Nat.mod_mod]
      simp only [operator, AluOp.type, Emu.readRight, Emu.writeRight, Insn.emulated, Src.emulated]
      simp only [true_or, or_true, and_self, if_true, reduceCtorEq, false_and, if_false, emulatedResult,
        AluOp.eval, Function.update_self, again]
  | add | sub | mul | or | and | xor =>
      simp [operator, AluOp.type, Emu.readRight, Insn.emulated, Src.emulated, emulatedResult,
        AluOp.eval]

theorem alu_k_emulated (type : line.rightVar.type = .number) (pc flen : Nat) (mask : BitVec 16)
    (admissible : (Insn.alu op (.k line.rightVar.data)).Admissible pc flen mask) :
    Emu.assignLine line vars =
      emulatedResult line vars ((Insn.alu op (.k line.rightVar.data)).emulated vars) := by
  have target : Emu.leftPtr line = some .A := by simp [Emu.leftPtr, left, type, Emu.varCell, Emu.indexed]
  have pointer : Emu.rightPtr line = some .number := by simp [Emu.rightPtr, type]
  have written (small : line.rightVar.data.toNat < 32) :
      Emu.writeRight .number (line.rightVar.data &&& 0x1f) line vars = (line, vars) := by
    rw [shift_amount _ small]
    rfl
  unfold Emu.assignLine
  rw [target, pointer]
  cases op with
  | div =>
      have divisor : line.rightVar.data ≠ 0#32 := fun zero => admissible (by simp [zero])
      simp [operator, AluOp.type, Emu.readRight, Insn.emulated, Src.emulated, divisor, emulatedResult,
        AluOp.eval]
  | lsh | rsh =>
      have small : line.rightVar.data.toNat < 32 := admissible
      have amount : line.rightVar.data.toNat % 32 = line.rightVar.data.toNat := Nat.mod_eq_of_lt small
      simp only [operator, AluOp.type]
      dsimp only [Emu.readRight]
      rw [written small]
      simp [Insn.emulated, Src.emulated, emulatedResult, AluOp.eval, amount]
  | add | sub | mul | or | and | xor =>
      simp [operator, AluOp.type, Emu.readRight, Insn.emulated, Src.emulated, emulatedResult,
        AluOp.eval]

end Arithmetic

theorem assign_emulated (line : AssignLine) (insn : Insn) (stands : line.Stands insn)
    (pc flen : Nat) (mask : BitVec 16) (admissible : insn.Admissible pc flen mask)
    (args : line.rightVar.type = .attrLowarg ∨ line.rightVar.type = .attrHigharg →
      line.rightVar.data.toNat ≤ 5) (vars : EmuVars) :
    Emu.assignLine line vars = emulatedResult line vars (insn.emulated vars) := by
  cases stands with
  | neg left operator right =>
      simp [Emu.assignLine, Emu.leftPtr, Emu.rightPtr, left, right, Emu.varCell, Emu.indexed, operator,
        Emu.readRight, Insn.emulated, emulatedResult]
  | alu op src left operator right =>
      rcases src_cases _ _ right with ⟨type, rfl⟩ | ⟨type, rfl⟩
      · exact alu_x_emulated line op left operator vars type
      · exact alu_k_emulated line op left operator vars type pc flen mask admissible
  | txa left operator right =>
      simp [Emu.assignLine, Emu.leftPtr, Emu.rightPtr, left, right, Emu.varCell, Emu.indexed, operator,
        Emu.readRight, Insn.emulated, emulatedResult]
  | tax left operator right =>
      simp [Emu.assignLine, Emu.leftPtr, Emu.rightPtr, left, right, Emu.varCell, Emu.indexed, operator,
        Emu.readRight, Insn.emulated, emulatedResult]
  | ldImm dst left operator right =>
      cases dst <;> simp only [Reg.type] at left <;>
      simp [Emu.assignLine, Emu.leftPtr, Emu.rightPtr, left, right, Emu.varCell, Emu.indexed, operator,
        Emu.readRight, Insn.emulated, emulatedResult, Reg.cell]
  | ldMem dst left operator right =>
      have small : line.rightVar.data.toNat < bpfMemWords := admissible.1
      cases dst <;> simp only [Reg.type] at left <;>
      simp [Emu.assignLine, Emu.leftPtr, Emu.rightPtr, left, right, Emu.varCell, Emu.indexed, operator,
        Emu.readRight, Insn.emulated, emulatedResult, Reg.cell, Emu.advancePtr, small]
  | ldLen dst left operator right zero =>
      cases dst <;> simp only [Reg.type] at left <;>
      simp [Emu.assignLine, Emu.leftPtr, Emu.rightPtr, left, right, Emu.varCell, Emu.indexed, operator,
        Emu.readRight, Insn.emulated, emulatedResult, Reg.cell]
  | ldAbs offset left operator right =>
      obtain ⟨notNumber, cell⟩ := offset_abs_cell line.rightVar offset right args
      have pointer : Emu.rightPtr line = some (.var (dataCell offset.toNat)) := by
        unfold Emu.rightPtr
        rw [if_neg notNumber]
        exact cell
      have target : Emu.leftPtr line = some .A := by
        simp [Emu.leftPtr, left, Emu.varCell]
      unfold Emu.assignLine
      rw [pointer, target]
      simp [operator, Emu.readRight, Insn.emulated, emulatedResult]
  | st src left operator right =>
      have small : line.leftVar.data.toNat < bpfMemWords := admissible
      cases src <;> simp only [Reg.type] at right <;>
      simp [Emu.assignLine, Emu.leftPtr, Emu.rightPtr, left, right, Emu.varCell, Emu.indexed, operator,
        Emu.readRight, Insn.emulated, emulatedResult, Reg.cell, Emu.advancePtr, small]

end Ceccomp
