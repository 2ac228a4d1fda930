import Ceccomp.Disasm.Legible
import Ceccomp.Text.Program

/-!
The resolver on a program that was printed: where the kernel's check admits the
instruction, its statement is resolved without a report and stands for it again.
-/

namespace Ceccomp

/-- What is left of an instruction in its text. -/
def Insn.shown : Insn → Insn
  | .retK k => .retK (shownReturn k)
  | insn => insn

/-- The filter that is assembled from the line of `f`: `RET` without the data that is not
shown, and zeros in the fields that mean nothing. -/
def Filter.shown (f : Filter) : Filter :=
  match f.insn? with
  | some insn => insn.shown.filter
  | none => f

section Assignments

theorem assign_line_same (line again : AssignLine) (left : line.leftVar.Same again.leftVar)
    (operator : again.operator = line.operator) (right : line.rightVar.Same again.rightVar)
    (memValid : BitVec 16) :
    Resolver.assignLine memValid again = Resolver.assignLine memValid line := by
  obtain ⟨⟨leftType, leftData, _⟩, type, ⟨rightType, rightData, _⟩⟩ := line
  obtain ⟨⟨_, _, _⟩, _, ⟨_, _, _⟩⟩ := again
  obtain ⟨rfl, rfl⟩ := left
  obtain ⟨rfl, rfl⟩ := right
  cases operator
  rfl

theorem src_same (obj again : Obj) (same : obj.Same again) : again.src? = obj.src? := by
  unfold Obj.src?
  rw [same.1, same.2]

theorem offset_same (obj again : Obj) (same : obj.Same again) :
    Asm.offsetAbs again = Asm.offsetAbs obj := by
  unfold Asm.offsetAbs
  rw [same.1, same.2]

theorem assign_stands_same (line again : AssignLine) (left : line.leftVar.Same again.leftVar)
    (operator : again.operator = line.operator) (right : line.rightVar.Same again.rightVar)
    (insn : Insn) (stands : line.Stands insn) : again.Stands insn := by
  cases stands with
  | neg left_ operator_ right_ =>
      exact .neg (left.1.trans left_) (operator.trans operator_) (right.1.trans right_)
  | alu op src left_ operator_ right_ =>
      exact .alu op src (left.1.trans left_) (operator.trans operator_)
        ((src_same _ _ right).trans right_)
  | txa left_ operator_ right_ =>
      exact .txa (left.1.trans left_) (operator.trans operator_) (right.1.trans right_)
  | tax left_ operator_ right_ =>
      exact .tax (left.1.trans left_) (operator.trans operator_) (right.1.trans right_)
  | ldImm dst left_ operator_ right_ =>
      exact right.2 ▸ .ldImm dst (left.1.trans left_) (operator.trans operator_)
        (right.1.trans right_)
  | ldMem dst left_ operator_ right_ =>
      exact right.2 ▸ .ldMem dst (left.1.trans left_) (operator.trans operator_)
        (right.1.trans right_)
  | ldLen dst left_ operator_ right_ zero =>
      exact .ldLen dst (left.1.trans left_) (operator.trans operator_) (right.1.trans right_)
        (right.2.trans zero)
  | ldAbs offset left_ operator_ right_ =>
      exact .ldAbs offset (left.1.trans left_) (operator.trans operator_)
        ((offset_same _ _ right).trans right_)
  | st src left_ operator_ right_ =>
      exact left.2 ▸ .st src (left.1.trans left_) (operator.trans operator_)
        (right.1.trans right_)

theorem attr_offset (k : Word) (inside : k.toNat < seccompDataSize) (aligned : k.toNat % 4 = 0) :
    Asm.offsetAbs (attrObj k) = some k ∧ Resolver.loadError 0 (attrObj k) = none ∧
      (attrObj k).type ∈
        [.attrSyscall, .attrArch, .attrLowpc, .attrHighpc, .attrLowarg, .attrHigharg] := by
  have words : ∀ idx < 16, Asm.offsetAbs (attrObj (BitVec.ofNat 32 (4 * idx))) =
        some (BitVec.ofNat 32 (4 * idx)) ∧
      Resolver.loadError 0 (attrObj (BitVec.ofNat 32 (4 * idx))) = none ∧
      (attrObj (BitVec.ofNat 32 (4 * idx))).type ∈
        [TokenType.attrSyscall, .attrArch, .attrLowpc, .attrHighpc, .attrLowarg, .attrHigharg] := by
    decide
  simp only [seccompDataSize] at inside
  have word := words (k.toNat / 4) (by omega)
  have same : BitVec.ofNat 32 (4 * (k.toNat / 4)) = k := by
    apply BitVec.eq_of_toNat_eq
    rw [BitVec.toNat_ofNat]
    omega
  rwa [same] at word

theorem assign_settles (insn : Insn) (line : AssignLine) (assigns : insn.line = .assign line)
    (pc flen : Nat) (memValid : BitVec 16) (admissible : insn.Admissible pc flen memValid) :
    (∃ after, Resolver.assignLine memValid line = (none, after)) ∧ line.Stands insn := by
  have slot (k : Word) (inside : k.toNat < bpfMemWords) :
      ¬ Resolver.isOutRange (.at .mem k) 15 = true := by
    have small : ¬ k.toNat > 15 := Nat.not_lt.mpr (Nat.le_of_lt_succ inside)
    simpa [Resolver.isOutRange, Obj.at] using small
  cases insn with
  | ldAbs k =>
      cases assigns
      obtain ⟨offset, silent, attr⟩ := attr_offset k admissible.1 admissible.2
      have type : (attrObj k).type ≠ .A ∧ (attrObj k).type ≠ .mem := by
        constructor <;> intro same <;> rw [same] at attr <;> revert attr <;> decide
      refine ⟨⟨memValid, ?_⟩, .ldAbs k rfl rfl offset⟩
      -- the mask is looked at for slots only
      have loads : Resolver.loadError memValid (attrObj k) = none := by
        simpa [Resolver.loadError, type.2] using silent
      simp [Resolver.assignLine, Resolver.assignA, Obj.of, TokenType.fromTo, TokenType.ctorIdx,
        type.1, loads]
  | ldLen dst =>
      cases assigns
      refine ⟨⟨memValid, ?_⟩, .ldLen dst rfl rfl rfl rfl⟩
      cases dst <;> rfl
  | ldImm dst k =>
      cases assigns
      refine ⟨⟨memValid, ?_⟩, .ldImm dst rfl rfl rfl⟩
      cases dst <;> rfl
  | ldMem dst k =>
      cases assigns
      refine ⟨⟨memValid, ?_⟩, .ldMem dst rfl rfl rfl⟩
      have loads : Resolver.loadError memValid (.at .mem k) = none := by
        unfold Resolver.loadError
        have type : (Obj.at .mem k).type = .mem := rfl
        rw [if_neg (by simp [Resolver.isArg, Obj.at]), if_pos type, if_neg (slot k admissible.1)]
        exact if_neg admissible.2
      cases dst <;> simp [Resolver.assignLine, Resolver.assignA, Resolver.assignX, Reg.type, Obj.of,
        Obj.at, TokenType.fromTo, TokenType.ctorIdx] <;> exact loads
  | st src k =>
      cases assigns
      have stored : Resolver.assignMem
          { leftVar := .at .mem k, operator := .equal, rightVar := .of src.type } = none := by
        unfold Resolver.assignMem
        rw [if_neg (by simp), if_neg (slot k admissible)]
        cases src <;> rfl
      refine ⟨⟨memValid ||| bit16 k.toNat, ?_⟩, .st src rfl rfl rfl⟩
      simp only [Resolver.assignLine, Obj.at] at stored ⊢
      rw [stored]
  | alu op src =>
      cases assigns
      cases src with
      | x =>
          refine ⟨⟨memValid, ?_⟩, .alu op .x rfl rfl rfl⟩
          cases op <;> rfl
      | k value =>
          refine ⟨⟨memValid, ?_⟩, .alu op (.k value) rfl rfl rfl⟩
          cases op with
          | div =>
              have nonzero : ¬ value = 0#32 := fun zero => admissible (by rw [zero]; rfl)
              simp [Resolver.assignLine, Resolver.assignA, Obj.of, Obj.number, Src.obj, AluOp.type,
                TokenType.fromTo, TokenType.ctorIdx, nonzero]
          | lsh | rsh =>
              have small : ¬ value.toNat ≥ 32 := Nat.not_le.mpr admissible
              simp [Resolver.assignLine, Resolver.assignA, Obj.of, Obj.number, Src.obj, AluOp.type,
                TokenType.fromTo, TokenType.ctorIdx, small]
          | add | sub | mul | or | and | xor => rfl
  | neg =>
      cases assigns
      exact ⟨⟨memValid, rfl⟩, .neg rfl rfl rfl⟩
  | tax =>
      cases assigns
      exact ⟨⟨memValid, rfl⟩, .tax rfl rfl rfl⟩
  | txa =>
      cases assigns
      exact ⟨⟨memValid, rfl⟩, .txa rfl rfl rfl⟩
  | ja _ | jmp _ _ _ _ | retA | retK _ => cases assigns

end Assignments

section Returns

theorem return_settles (insn : Insn) (line again : ReturnLine) (returns : insn.line = .return_ line)
    (same : line.retObj.Same again.retObj) :
    Resolver.returnLine again = none ∧ again.Stands insn.shown := by
  have type := same.1
  have data := same.2
  cases insn with
  | retA =>
      cases returns
      exact ⟨by simp [Resolver.returnLine, type, Obj.of], .a type⟩
  | retK k =>
      cases returns
      obtain ⟨shownType, shownData, obj, kind⟩ := decode_return_cases k
      dsimp only at type data
      rw [obj] at type data
      cases kind with
      | number whole =>
          refine ⟨by simp [Resolver.returnLine, type], ?_⟩
          simpa [Insn.shown, whole, data] using @ReturnLine.Stands.number again type
      | carrying _ known value whole =>
          obtain ⟨action, found, joined⟩ := value
          have small : again.retObj.data.toNat ≤ 0xffff := by
            rw [data, BitVec.toNat_and]
            exact Nat.and_le_right
          refine ⟨?_, ?_⟩
          · simp [Resolver.returnLine, Nat.not_lt.mpr small]
          · have stands := @ReturnLine.Stands.action again action (by rw [type]; exact found)
            simpa [Insn.shown, whole, data, joined] using stands
      | bare _ known value =>
          refine ⟨?_, ?_⟩
          · have small : again.retObj.data.toNat ≤ 0xffff := by
              rw [data]
              exact Nat.zero_le _
            simp [Resolver.returnLine, Nat.not_lt.mpr small]
          · have stands := @ReturnLine.Stands.action again (shownReturn k)
              (by rw [type]; exact value)
            simpa [Insn.shown, data] using stands
  | ldAbs _ | ldLen _ | ldImm _ _ | ldMem _ _ | st _ _ | alu _ _ | neg | tax | txa | ja _
  | jmp _ _ _ _ => cases returns

end Returns

/-- The labels of a printed program lead to the lines they stand in front of. -/
def LabelsLead (table : LabelTable) (bpfLen : Nat) : Prop :=
  ∀ nr, 1 ≤ nr → nr ≤ bpfLen → findKey table (defaultLabel nr) = nr

section Jumps

variable (table : LabelTable) (bpfLen pc : Nat)

theorem distance_settles (label : Label) (distance : Nat) (short : pc + distance + 1 < bpfLen)
    (small : bpfLen ≤ bpfMaxInsns) :
    (Resolver.setJtJf label (pc + 1) (pc + 1 + distance + 1)).codeNr = distance ∧
      Resolver.isNegative16 (Resolver.setJtJf label (pc + 1) (pc + 1 + distance + 1)) = false := by
  simp only [bpfMaxInsns] at small
  have number : (Resolver.setJtJf label (pc + 1) (pc + 1 + distance + 1)).codeNr = distance := by
    unfold Resolver.setJtJf
    dsimp only
    omega
  refine ⟨number, ?_⟩
  unfold Resolver.isNegative16
  rw [number, decide_eq_false_iff_not]
  omega

variable (leads : LabelsLead table bpfLen) (small : bpfLen ≤ bpfMaxInsns)

include leads small

theorem label_settles (label : Label) (distance : Nat) (short : pc + distance + 1 < bpfLen)
    (key : label.key = some (defaultLabel (pc + 1 + distance + 1))) :
    Resolver.findLabel table label = pc + 1 + distance + 1 ∧
      pc + 1 + distance + 1 ≠ Resolver.labelNotFound := by
  constructor
  · unfold Resolver.findLabel
    rw [key]
    exact leads _ (by omega) (by omega)
  · simp only [bpfMaxInsns, Resolver.labelNotFound] at small ⊢
    omega

theorem ja_settles (k : Word) (again : JumpLine) (admissible : k.toNat < bpfLen - pc - 1)
    (plain : again.ifCondition = false)
    (key : again.jt.key = some (Formatter.printLabel (jaShown k).jt (pc + 1))) :
    ∃ resolved targets,
      Resolver.jumpLine table bpfLen (pc + 1) again = (resolved, .ok targets) ∧
        resolved.Stands (.ja k) := by
  have fits : k.toNat % 2 ^ 16 = k.toNat := by
    simp only [bpfMaxInsns] at small
    exact Nat.mod_eq_of_lt (by omega)
  have key : again.jt.key = some (defaultLabel (pc + 1 + k.toNat + 1)) := by
    rw [key, jaShown, print_label_to, fits]
  obtain ⟨found, known⟩ := label_settles table bpfLen pc leads small again.jt k.toNat (by omega) key
  obtain ⟨number, positive⟩ := distance_settles bpfLen pc again.jt k.toNat (by omega) small
  refine ⟨{ again with jt := Resolver.setJtJf again.jt (pc + 1) (pc + 1 + k.toNat + 1) },
    [pc + 1 + k.toNat + 1], ?_, ?_⟩
  · unfold Resolver.jumpLine Resolver.jaLine
    rw [if_pos (by simp [plain]), found, if_neg known, if_neg (by omega),
      if_neg (by rw [positive]; exact Bool.false_ne_true)]
  · have stands := @JumpLine.Stands.ja
      { again with jt := Resolver.setJtJf again.jt (pc + 1) (pc + 1 + k.toNat + 1) } plain
    rw [number, BitVec.ofNat_toNat, BitVec.setWidth_eq] at stands
    exact stands

theorem jf_target_settles (line : JumpLine) (distance : Nat) (short : pc + distance + 1 < bpfLen)
    (key : line.jf.key =
      if distance = 0 then none else some (defaultLabel (pc + 1 + distance + 1))) :
    Resolver.jfTarget table (pc + 1) line = pc + 1 + distance + 1 ∧
      ¬ (line.jf.key.isSome ∧ pc + 1 + distance + 1 = Resolver.labelNotFound) := by
  unfold Resolver.jfTarget
  by_cases next : distance = 0
  · rw [if_pos next] at key
    simp [key, next]
  · rw [if_neg next] at key
    obtain ⟨found, known⟩ := label_settles table bpfLen pc leads small line.jf distance short key
    simp [key, found, known]

omit leads small in
/-- What the two labels have to be resolved to. The targets are variables, for the kernel
would count the number of a known one down from 0xFFFF. -/
theorem branches_resolve (codeNr : Nat) (again : JumpLine) (first second : Nat) (jt jf : Label)
    (conditional : again.ifCondition = true)
    (found : Resolver.findLabel table again.jt = first)
    (target : Resolver.jfTarget table codeNr again = second)
    (jtLabel : Resolver.setJtJf again.jt codeNr first = jt)
    (jfLabel : Resolver.setJtJf again.jf codeNr second = jf)
    (known : first ≠ Resolver.labelNotFound)
    (present : ¬ (again.jf.key.isSome ∧ second = Resolver.labelNotFound))
    (jtNear : Resolver.isNegative16 jt = false ∧ jt.codeNr ≤ 255)
    (jfNear : Resolver.isNegative16 jf = false ∧ jf.codeNr ≤ 255)
    (inside : first ≤ bpfLen) (jfInside : codeNr + jf.codeNr + 1 ≤ bpfLen) :
    Resolver.jumpLine table bpfLen codeNr again =
      ({ again with jt, jf }, .ok [first, codeNr + jf.codeNr + 1]) := by
  have silent (label : Label) (near : Resolver.isNegative16 label = false ∧ label.codeNr ≤ 255)
      (first second : Message) : Resolver.distanceError label first second = none := by
    unfold Resolver.distanceError
    rw [near.1, if_neg Bool.false_ne_true, if_neg (Nat.not_lt.mpr near.2)]
  unfold Resolver.jumpLine
  rw [if_neg (by simp [conditional]), found, jtLabel]
  unfold Resolver.jtLine
  rw [target, jfLabel, if_neg known, silent jt jtNear]
  dsimp only
  rw [if_neg (Nat.not_lt.mpr inside)]
  unfold Resolver.jfLine
  dsimp only
  rw [if_neg present, silent jf jfNear]
  dsimp only
  rw [if_neg (Nat.not_lt.mpr jfInside)]

theorem branches_settle (again : JumpLine) (jt jf : Nat) (conditional : again.ifCondition = true)
    (taken : pc + jt + 1 < bpfLen) (other : pc + jf + 1 < bpfLen) (near : jt ≤ 255 ∧ jf ≤ 255)
    (jtKey : again.jt.key = some (defaultLabel (pc + 1 + jt + 1)))
    (jfKey : again.jf.key = if jf = 0 then none else some (defaultLabel (pc + 1 + jf + 1))) :
    ∃ jtLabel jfLabel targets,
      Resolver.jumpLine table bpfLen (pc + 1) again =
          ({ again with jt := jtLabel, jf := jfLabel }, .ok targets) ∧
        jtLabel.codeNr = jt ∧ jfLabel.codeNr = jf := by
  obtain ⟨found, known⟩ := label_settles table bpfLen pc leads small again.jt jt taken jtKey
  obtain ⟨jtNumber, jtPositive⟩ := distance_settles bpfLen pc again.jt jt taken small
  obtain ⟨target, present⟩ := jf_target_settles table bpfLen pc leads small again jf other jfKey
  obtain ⟨jfNumber, jfPositive⟩ := distance_settles bpfLen pc again.jf jf other small
  exact ⟨_, _, _, branches_resolve table bpfLen (pc + 1) again _ _ _ _ conditional found target rfl
    rfl known present ⟨jtPositive, by omega⟩ ⟨jfPositive, by omega⟩ (by omega) (by omega),
    jtNumber, jfNumber⟩

omit leads small in
theorem jmp_shown_swapped (op : JmpOp) (src : Src) (jt jf : BitVec 8) (swapped : jt = 0 ∧ jf ≠ 0) :
    (jmpShown op src jt jf).jt = .to jf.toNat ∧ (jmpShown op src jt jf).jf = .to jt.toNat ∧
      (jmpShown op src jt jf).comparator = op.reverseType ∧
      (jmpShown op src jt jf).ifBang = decide (op = .jset) := by
  unfold jmpShown
  rw [decide_eq_true swapped]
  exact ⟨rfl, rfl, rfl, Bool.true_and _⟩

omit leads small in
theorem jmp_shown_kept (op : JmpOp) (src : Src) (jt jf : BitVec 8) (kept : ¬ (jt = 0 ∧ jf ≠ 0)) :
    (jmpShown op src jt jf).jt = .to jt.toNat ∧ (jmpShown op src jt jf).jf = .to jf.toNat ∧
      (jmpShown op src jt jf).comparator = op.type ∧
      (jmpShown op src jt jf).ifBang = false := by
  unfold jmpShown
  rw [decide_eq_false kept]
  exact ⟨rfl, rfl, rfl, rfl⟩

omit leads small in
theorem branches_stand (op : JmpOp) (src : Src) (reversed : Bool) (again : JumpLine)
    (conditional : again.ifCondition = true)
    (comparator : again.comparator = if reversed then op.reverseType else op.type)
    (able : reversed = true → op ≠ .jset) (operand : again.cmpobj.src? = some src)
    (jtLabel jfLabel : Label) (jt jf : BitVec 8)
    (taken : (if reversed ^^ again.ifBang then jfLabel.codeNr else jtLabel.codeNr) = jt.toNat)
    (other : (if reversed ^^ again.ifBang then jtLabel.codeNr else jfLabel.codeNr) = jf.toNat) :
    JumpLine.Stands { again with jt := jtLabel, jf := jfLabel } (.jmp op src jt jf) := by
  have stands := @JumpLine.Stands.jmp { again with jt := jtLabel, jf := jfLabel } op src
    reversed conditional comparator able operand
  dsimp only at stands
  rw [taken, other, BitVec.ofNat_toNat, BitVec.ofNat_toNat, BitVec.setWidth_eq,
    BitVec.setWidth_eq] at stands
  exact stands

theorem jmp_settles (op : JmpOp) (src : Src) (jt jf : BitVec 8) (again : JumpLine)
    (taken : pc + jt.toNat + 1 < bpfLen) (other : pc + jf.toNat + 1 < bpfLen)
    (restated : Line.Restated (pc + 1) (.jump (jmpShown op src jt jf)) (.jump again)) :
    ∃ resolved targets,
      Resolver.jumpLine table bpfLen (pc + 1) again = (resolved, .ok targets) ∧
        resolved.Stands (.jmp op src jt jf) := by
  cases restated with
  | ja _ _ always => cases always
  | jump _ _ _ also ifBang comparator operand jtKey jfKey =>
      have near : jt.toNat ≤ 255 ∧ jf.toNat ≤ 255 :=
        ⟨Nat.le_of_lt_succ jt.isLt, Nat.le_of_lt_succ jf.isLt⟩
      have compared : again.cmpobj.src? = some src := by
        rw [src_same _ _ operand]
        cases src <;> rfl
      by_cases swapped : jt = 0 ∧ jf ≠ 0
      · -- the text names the false branch first
        obtain ⟨first, second, shown, bang⟩ := jmp_shown_swapped op src jt jf swapped
        rw [first, print_label_to] at jtKey
        rw [second, print_label_to] at jfKey
        obtain ⟨jtLabel, jfLabel, targets, ran, jtNumber, jfNumber⟩ := branches_settle table bpfLen pc
          leads small again jf.toNat jt.toNat also other taken near.symm jtKey jfKey
        have reversed : (decide (op ≠ .jset) ^^ again.ifBang) = true := by
          rw [ifBang, bang]
          cases op <;> rfl
        refine ⟨_, targets, ran, ?_⟩
        apply branches_stand op src (decide (op ≠ .jset)) again also
        · exact comparator.trans (shown.trans (by cases op <;> rfl))
        · exact of_decide_eq_true
        · exact compared
        · rw [if_pos reversed]
          exact jfNumber
        · rw [if_pos reversed]
          exact jtNumber
      · obtain ⟨first, second, shown, bang⟩ := jmp_shown_kept op src jt jf swapped
        rw [first, print_label_to] at jtKey
        rw [second, print_label_to] at jfKey
        obtain ⟨jtLabel, jfLabel, targets, ran, jtNumber, jfNumber⟩ := branches_settle table bpfLen pc
          leads small again jt.toNat jf.toNat also taken other near jtKey jfKey
        have kept : ¬ (false ^^ again.ifBang) = true := by
          rw [ifBang, bang]
          exact Bool.false_ne_true
        refine ⟨_, targets, ran, ?_⟩
        apply branches_stand op src false again also
        · exact comparator.trans shown
        · exact fun reversed => absurd reversed Bool.false_ne_true
        · exact compared
        · rw [if_neg kept]
          exact jtNumber
        · rw [if_neg kept]
          exact jfNumber

theorem statement_settles (insn : Insn) (statement : Statement) (codeNr : statement.codeNr = pc + 1)
    (restated : insn.line.Restated (pc + 1) statement.line) (state : ResolveState)
    (admissible : insn.Admissible pc bpfLen state.memValid) :
    ∃ resolved after, resolveStatement table bpfLen statement state = (resolved, after) ∧
      after.reports = state.reports ∧ resolved.line.Stands insn.shown := by
  unfold resolveStatement
  cases line : statement.line with
  | assign again =>
      rw [line] at restated
      obtain ⟨shown, assigns, left, operator, right⟩ : ∃ shown, insn.line = .assign shown ∧
          shown.leftVar.Same again.leftVar ∧ again.operator = shown.operator ∧
          shown.rightVar.Same again.rightVar := by
        cases decoded : insn.line with
        | assign shown =>
            rw [decoded] at restated
            cases restated with
            | assign _ _ left operator right => exact ⟨shown, rfl, left, operator, right⟩
        | jump _ | return_ _ | empty | eof | error _ => rw [decoded] at restated; cases restated
      obtain ⟨⟨after, silent⟩, stands⟩ :=
        assign_settles insn shown assigns pc bpfLen state.memValid admissible
      -- only the data of a return is not shown
      have kept : insn.shown = insn := by
        cases insn <;> first | rfl | cases assigns
      rw [← assign_line_same shown again left operator right] at silent
      dsimp only
      rw [silent]
      refine ⟨_, _, rfl, rfl, ?_⟩
      rw [line, kept]
      exact assign_stands_same shown again left operator right insn stands
  | return_ again =>
      rw [line] at restated
      obtain ⟨shown, returns, same⟩ : ∃ shown, insn.line = .return_ shown ∧
          shown.retObj.Same again.retObj := by
        cases decoded : insn.line with
        | return_ shown =>
            rw [decoded] at restated
            cases restated with
            | return_ _ _ same => exact ⟨shown, rfl, same⟩
        | jump _ | assign _ | empty | eof | error _ => rw [decoded] at restated; cases restated
      obtain ⟨silent, stands⟩ := return_settles insn shown again returns same
      dsimp only
      rw [silent]
      refine ⟨_, _, rfl, rfl, ?_⟩
      rw [line]
      exact stands
  | jump again =>
      rw [line] at restated
      have settled : ∃ resolved targets,
          Resolver.jumpLine table bpfLen (pc + 1) again = (resolved, .ok targets) ∧
            resolved.Stands insn.shown := by
        cases insn with
        | ja k =>
            cases restated with
            | ja _ _ _ plain _ jt _ => exact ja_settles table bpfLen pc leads small k again admissible plain jt
            | jump _ _ conditional => cases conditional
        | jmp op src jt jf =>
            exact jmp_settles table bpfLen pc leads small op src jt jf again admissible.1 admissible.2
              restated
        | ldAbs _ | ldLen _ | ldImm _ _ | ldMem _ _ | st _ _ | alu _ _ | neg | tax | txa | retA
        | retK _ => cases restated
      obtain ⟨resolved, targets, ran, stands⟩ := settled
      dsimp only
      rw [codeNr, ran]
      refine ⟨_, _, rfl, ?_, stands⟩
      exact merged_reports targets state
  | empty | eof | error e =>
      rw [line] at restated
      cases insn <;> cases restated

end Jumps

end Ceccomp
