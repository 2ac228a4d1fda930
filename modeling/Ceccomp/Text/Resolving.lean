import Ceccomp.Text.Meaning

/-!
What `resolver` lets through: statements standing for instructions that the
kernel's check admits under the same memory masks.
-/

namespace Ceccomp

theorem alu_operator (operator : TokenType) (listed : operator ∈ aluOperators) :
    ∃ op : AluOp, operator = op.type := by
  simp only [aluOperators, List.mem_cons, List.not_mem_nil, or_false] at listed
  rcases listed with rfl | rfl | rfl | rfl | rfl | rfl | rfl | rfl | rfl
  · exact ⟨.add, rfl⟩
  · exact ⟨.sub, rfl⟩
  · exact ⟨.mul, rfl⟩
  · exact ⟨.div, rfl⟩
  · exact ⟨.lsh, rfl⟩
  · exact ⟨.rsh, rfl⟩
  · exact ⟨.and, rfl⟩
  · exact ⟨.or, rfl⟩
  · exact ⟨.xor, rfl⟩

theorem comparator_operator (comparator : TokenType) (listed : comparator ∈ comparators) :
    ∃ (op : JmpOp) (reversed : Bool), comparator = (if reversed then op.reverseType else op.type) ∧
      (reversed = true → op ≠ .jset) := by
  simp only [comparators, List.mem_cons, List.not_mem_nil, or_false] at listed
  rcases listed with rfl | rfl | rfl | rfl | rfl | rfl | rfl
  · exact ⟨.jeq, false, rfl, nofun⟩
  · exact ⟨.jeq, true, rfl, nofun⟩
  · exact ⟨.jge, false, rfl, nofun⟩
  · exact ⟨.jgt, false, rfl, nofun⟩
  · exact ⟨.jgt, true, rfl, nofun⟩
  · exact ⟨.jge, true, rfl, nofun⟩
  · exact ⟨.jset, false, rfl, nofun⟩

/-- An instruction without targets that a statement stands for, and `mem_valid` behind it. -/
structure Admits (pc flen : Nat) (memValid after : BitVec 16) (insn : Insn) : Prop where
  admissible : insn.Admissible pc flen memValid
  straight : insn.targets pc = []
  valid : insn.validAfter memValid = after

theorem load_error_mem (memValid : BitVec 16) (right : Obj) (type : right.type = .mem)
    (silent : Resolver.loadError memValid right = none) :
    right.data.toNat < bpfMemWords ∧ memValid &&& bit16 right.data.toNat ≠ 0#16 := by
  unfold Resolver.loadError at silent
  rw [if_neg (by simp [Resolver.isArg, type]), if_pos type] at silent
  simp only [Resolver.isOutRange, decide_eq_true_eq, bpfMemWords] at silent ⊢
  split at silent
  · cases silent
  · next small =>
      split at silent
      · cases silent
      · next valid => exact ⟨by omega, valid⟩

theorem load_error_arg (memValid : BitVec 16) (right : Obj)
    (type : right.type = .attrLowarg ∨ right.type = .attrHigharg)
    (silent : Resolver.loadError memValid right = none) : right.data.toNat ≤ 5 := by
  rcases type with type | type <;>
    simpa [Resolver.loadError, Resolver.isArg, Resolver.isOutRange, type] using silent

theorem offset_abs_inside (right : Obj) (offset : Word) (found : Asm.offsetAbs right = some offset)
    (inside : right.type = .attrLowarg ∨ right.type = .attrHigharg → right.data.toNat ≤ 5) :
    offset.toNat < seccompDataSize ∧ offset.toNat % 4 = 0 := by
  unfold Asm.offsetAbs at found
  obtain ⟨base, entry, rfl⟩ := Option.map_eq_some_iff.mp found
  unfold Asm.offsetTable at entry
  split at entry
  all_goals first
    | (cases entry; done)
    | (cases entry
       next type =>
         simp [type, seccompDataSize] at inside ⊢
         try omega)

theorem load_stands (line : AssignLine) (dst : Reg) (pc flen : Nat) (memValid : BitVec 16)
    (left : line.leftVar.type = dst.type) (operator : line.operator = .equal)
    (silent : Resolver.loadError memValid line.rightVar = none)
    (length : line.rightVar.type = .attrLen → line.rightVar.data = 0)
    (right : line.rightVar.type ∈ [.number, .mem, .attrLen]) :
    ∃ insn, line.Stands insn ∧ Admits pc flen memValid memValid insn := by
  simp only [List.mem_cons, List.not_mem_nil, or_false] at right
  rcases right with type | type | type
  · exact ⟨_, .ldImm dst left operator type,
      { admissible := trivial, straight := rfl, valid := rfl }⟩
  · exact ⟨_, .ldMem dst left operator type,
      { admissible := load_error_mem memValid _ type silent, straight := rfl, valid := rfl }⟩
  · exact ⟨_, .ldLen dst left operator type (length type),
      { admissible := trivial, straight := rfl, valid := rfl }⟩

theorem attr_stands (line : AssignLine) (pc flen : Nat) (memValid : BitVec 16)
    (left : line.leftVar.type = .A) (operator : line.operator = .equal)
    (silent : Resolver.loadError memValid line.rightVar = none)
    (right : line.rightVar.type ∈
      [.attrSyscall, .attrArch, .attrLowpc, .attrHighpc, .attrLowarg, .attrHigharg]) :
    ∃ insn, line.Stands insn ∧ Admits pc flen memValid memValid insn := by
  obtain ⟨offset, found⟩ : ∃ offset, Asm.offsetAbs line.rightVar = some offset := by
    simp only [List.mem_cons, List.not_mem_nil, or_false] at right
    unfold Asm.offsetAbs
    rcases right with type | type | type | type | type | type <;> rw [type] <;> exact ⟨_, rfl⟩
  exact ⟨_, .ldAbs offset left operator found,
    { admissible := offset_abs_inside _ _ found fun arg => load_error_arg memValid _ arg silent
      straight := rfl
      valid := rfl }⟩

theorem assign_a_stands (line : AssignLine) (shaped : line.Shaped) (pc flen : Nat)
    (memValid : BitVec 16) (left : line.leftVar.type = .A)
    (silent : Resolver.assignA memValid line = none) :
    ∃ insn, line.Stands insn ∧ Admits pc flen memValid memValid insn := by
  unfold Resolver.assignA at silent
  have operators := shaped.operator
  have types := shaped.right
  simp only [List.mem_cons] at operators
  rcases operators with equal | negative | alu
  · simp only [equal] at silent
    rw [if_neg (by decide), if_neg (by decide)] at silent
    split at silent
    · cases silent
    · next notA =>
        simp only [rightTypes, List.mem_cons, List.not_mem_nil, or_false] at types
        rcases types with type | type | type | type | type | type | type | type | type | type | type
        · exact absurd type notA
        · exact ⟨_, .txa left equal type, { admissible := trivial, straight := rfl, valid := rfl }⟩
        · exact load_stands line .A pc flen memValid left equal silent shaped.length (by simp [type])
        · exact attr_stands line pc flen memValid left equal silent (by simp [type])
        · exact attr_stands line pc flen memValid left equal silent (by simp [type])
        · exact attr_stands line pc flen memValid left equal silent (by simp [type])
        · exact attr_stands line pc flen memValid left equal silent (by simp [type])
        · exact load_stands line .A pc flen memValid left equal silent shaped.length (by simp [type])
        · exact attr_stands line pc flen memValid left equal silent (by simp [type])
        · exact attr_stands line pc flen memValid left equal silent (by simp [type])
        · exact load_stands line .A pc flen memValid left equal silent shaped.length (by simp [type])
  · simp only [negative, if_true] at silent
    split at silent
    · cases silent
    · next right =>
        exact ⟨_, .neg left negative (Decidable.not_not.mp right),
          { admissible := trivial, straight := rfl, valid := rfl }⟩
  · obtain ⟨op, same⟩ := alu_operator _ alu
    have notNegative : op.type ≠ .negative := by cases op <;> decide
    simp only [same] at silent
    rw [if_neg notNegative, if_pos (asm_alu op).1] at silent
    split at silent
    · cases silent
    · next operand =>
        by_cases x : line.rightVar.type = .X
        · exact ⟨_, .alu op .x left same (by simp [Obj.src?, x]),
            { admissible := by cases op <;> trivial, straight := rfl, valid := rfl }⟩
        · have number : line.rightVar.type = .number := by
            by_contra other
            exact operand ⟨x, other⟩
          refine ⟨_, .alu op (.k line.rightVar.data) left same (by simp [Obj.src?, number]),
            { admissible := ?_, straight := rfl, valid := rfl }⟩
          cases op with
          | div =>
              intro zero
              rw [if_pos ⟨rfl, number, BitVec.eq_of_toNat_eq zero⟩] at silent
              cases silent
          | lsh | rsh =>
              show line.rightVar.data.toNat < 32
              by_contra large
              rw [if_neg (by simp [AluOp.type]), if_pos ⟨by decide, number, by omega⟩] at silent
              cases silent
          | add | sub | mul | or | and | xor => trivial

theorem assign_x_stands (line : AssignLine) (shaped : line.Shaped) (pc flen : Nat)
    (memValid : BitVec 16) (left : line.leftVar.type = .X)
    (silent : Resolver.assignX memValid line = none) :
    ∃ insn, line.Stands insn ∧ Admits pc flen memValid memValid insn := by
  unfold Resolver.assignX at silent
  dsimp only at silent
  have types := shaped.right
  split at silent
  · cases silent
  · next equal =>
      have equal := Decidable.not_not.mp equal
      split at silent
      · cases silent
      · next attr =>
          split at silent
          · cases silent
          · next notX =>
              simp only [rightTypes, List.mem_cons, List.not_mem_nil, or_false] at types
              rcases types with type | type | type | type | type | type | type | type | type |
                type | type
              · exact ⟨_, .tax left equal type,
                  { admissible := trivial, straight := rfl, valid := rfl }⟩
              · exact absurd type notX
              · exact load_stands line .X pc flen memValid left equal silent shaped.length
                  (by simp [type])
              · exact absurd (by rw [type]; decide) attr
              · exact absurd (by rw [type]; decide) attr
              · exact absurd (by rw [type]; decide) attr
              · exact absurd (by rw [type]; decide) attr
              · exact load_stands line .X pc flen memValid left equal silent shaped.length
                  (by simp [type])
              · exact absurd (by rw [type]; decide) attr
              · exact absurd (by rw [type]; decide) attr
              · exact load_stands line .X pc flen memValid left equal silent shaped.length
                  (by simp [type])

theorem assign_mem_stands (line : AssignLine) (pc flen : Nat) (memValid : BitVec 16)
    (left : line.leftVar.type = .mem) (silent : Resolver.assignMem line = none) :
    ∃ insn, line.Stands insn ∧
      Admits pc flen memValid (memValid ||| bit16 line.leftVar.data.toNat) insn := by
  unfold Resolver.assignMem at silent
  split at silent
  · cases silent
  · next equal =>
      have equal := Decidable.not_not.mp equal
      split at silent
      · cases silent
      · next small =>
          have inside : line.leftVar.data.toNat < bpfMemWords := by
            simp only [Resolver.isOutRange, decide_eq_true_eq] at small
            simp only [bpfMemWords]
            omega
          split at silent
          · cases silent
          · next register =>
              by_cases a : line.rightVar.type = .A
              · exact ⟨_, .st .A left equal a,
                  { admissible := inside, straight := rfl, valid := rfl }⟩
              · have x : line.rightVar.type = .X := by
                  by_contra other
                  exact register ⟨a, other⟩
                exact ⟨_, .st .X left equal x,
                  { admissible := inside, straight := rfl, valid := rfl }⟩

theorem assign_line_stands (line : AssignLine) (shaped : line.Shaped) (pc flen : Nat)
    (memValid after : BitVec 16) (silent : Resolver.assignLine memValid line = (none, after)) :
    ∃ insn, line.Stands insn ∧ Admits pc flen memValid after insn := by
  have types := shaped.left
  simp only [List.mem_cons, List.not_mem_nil, or_false] at types
  unfold Resolver.assignLine at silent
  rcases types with type | type | type
  · simp only [type, Prod.mk.injEq] at silent
    obtain ⟨silent, rfl⟩ := silent
    exact assign_a_stands line shaped pc flen memValid type silent
  · simp only [type, Prod.mk.injEq] at silent
    obtain ⟨silent, rfl⟩ := silent
    exact assign_x_stands line shaped pc flen memValid type silent
  · simp only [type] at silent
    split at silent
    · cases silent
    · next stored =>
        cases silent
        exact assign_mem_stands line pc flen memValid type stored

theorem return_line_stands (line : ReturnLine) (shaped : line.Shaped) (pc flen : Nat)
    (memValid : BitVec 16) : ∃ insn, line.Stands insn ∧ Admits pc flen memValid memValid insn := by
  have action (value : Word) (found : Asm.retvals line.retObj.type = some value) :
      ∃ insn, line.Stands insn ∧ Admits pc flen memValid memValid insn :=
    ⟨_, .action value found, { admissible := trivial, straight := rfl, valid := rfl }⟩
  rcases shaped with types | ⟨types, _⟩
  · simp only [List.mem_cons, List.not_mem_nil, or_false] at types
    rcases types with type | type | type | type | type
    · exact ⟨_, .a type, { admissible := trivial, straight := rfl, valid := rfl }⟩
    · exact ⟨_, .number type, { admissible := trivial, straight := rfl, valid := rfl }⟩
    · exact action _ (by rw [type]; rfl)
    · exact action _ (by rw [type]; rfl)
    · exact action _ (by rw [type]; rfl)
  · simp only [List.mem_cons, List.not_mem_nil, or_false] at types
    rcases types with type | type | type | type | type <;> exact action _ (by rw [type]; rfl)

/-- Where a resolved label leads: so many statements behind the next one. -/
structure Leads (table : LabelTable) (bpfLen codeNr : Nat) (label : Label) : Prop where
  inside : codeNr + label.codeNr + 1 ≤ bpfLen
  found : ∀ key, label.key = some key → findKey table key = codeNr + label.codeNr + 1
  default : label.key = none → label.codeNr = 0

/-- A jump whose labels were resolved, and whose instruction merges into `targets`. -/
structure JumpAdmits (table : LabelTable) (bpfLen codeNr : Nat) (line resolved : JumpLine)
    (targets : List Nat) (insn : Insn) : Prop where
  stands : resolved.Stands insn
  admissible : ∀ memValid, insn.Admissible (codeNr - 1) bpfLen memValid
  merges : targets = (insn.targets (codeNr - 1)).map (· + 1) ∨
    targets = ((insn.targets (codeNr - 1)).map (· + 1)).reverse
  valid : ∀ memValid, insn.validAfter memValid = 0xffff
  jt : Leads table bpfLen codeNr resolved.jt
  jf : resolved.ifCondition = true → Leads table bpfLen codeNr resolved.jf
  same : resolved = { line with jt := resolved.jt, jf := resolved.jf }
  keys : resolved.jt.key = line.jt.key ∧ resolved.jf.key = line.jf.key

theorem set_jt_jf_key (label : Label) (codeNr nr : Nat) :
    (Resolver.setJtJf label codeNr nr).key = label.key := by
  unfold Resolver.setJtJf
  rfl

theorem distance_exact (label : Label) (codeNr nr : Nat) (place : codeNr ≤ bpfMaxInsns)
    (fits : nr < 65536) (positive : Resolver.isNegative16 (Resolver.setJtJf label codeNr nr) = false) :
    nr = codeNr + (Resolver.setJtJf label codeNr nr).codeNr + 1 := by
  unfold Resolver.isNegative16 at positive
  rw [decide_eq_false_iff_not] at positive
  unfold Resolver.setJtJf at positive ⊢
  dsimp only at positive ⊢
  simp only [bpfMaxInsns] at place
  omega

theorem label_leads (table : LabelTable) (bpfLen codeNr : Nat) (label : Label) (key : Text)
    (place : codeNr ≤ bpfMaxInsns) (named : label.key = some key)
    (fits : findKey table key < 65536)
    (positive : Resolver.isNegative16 (Resolver.setJtJf label codeNr (findKey table key)) = false)
    (inside : codeNr + (Resolver.setJtJf label codeNr (findKey table key)).codeNr + 1 ≤ bpfLen) :
    Leads table bpfLen codeNr (Resolver.setJtJf label codeNr (findKey table key)) := by
  have exact_ := distance_exact label codeNr _ place fits positive
  have key_ := set_jt_jf_key label codeNr (findKey table key)
  generalize Resolver.setJtJf label codeNr (findKey table key) = resolved at *
  refine { inside, found := fun other same => ?_, default := fun absent => ?_ }
  · rw [key_, named] at same
    cases same
    exact exact_
  · rw [key_, named] at absent
    cases absent

theorem distance_error_none (label : Label) (mustBePositive tooFar : Message)
    (silent : Resolver.distanceError label mustBePositive tooFar = none) :
    Resolver.isNegative16 label = false ∧ label.codeNr ≤ 255 := by
  unfold Resolver.distanceError at silent
  split at silent
  · cases silent
  · next positive =>
      split at silent
      · cases silent
      · next near => exact ⟨by simpa using positive, Nat.le_of_not_lt near⟩

section Jumps

variable {table : LabelTable} {bpfLen codeNr : Nat} {line : JumpLine}
variable (small : bpfLen ≤ bpfMaxInsns) (first : 1 ≤ codeNr) (place : codeNr ≤ bpfLen)

include small first place

theorem ja_stands (named : line.jt.Named) (plain : line.ifCondition = false)
    (resolved : JumpLine) (targets : List Nat)
    (done : Resolver.jumpLine table bpfLen codeNr line = (resolved, .ok targets)) :
    ∃ insn, JumpAdmits table bpfLen codeNr line resolved targets insn := by
  obtain ⟨key, label, _⟩ := named
  have found : Resolver.findLabel table line.jt = findKey table key := by
    simp [Resolver.findLabel, label]
  unfold Resolver.jumpLine at done
  rw [if_pos (by simp [plain]), found] at done
  have leads := label_leads table bpfLen codeNr line.jt key (Nat.le_trans place small) label
  have exact_ := distance_exact line.jt codeNr (findKey table key) (Nat.le_trans place small)
  have key_ := set_jt_jf_key line.jt codeNr (findKey table key)
  generalize Resolver.setJtJf line.jt codeNr (findKey table key) = jt at *
  unfold Resolver.jaLine at done
  split at done
  · cases done
  · split at done
    · cases done
    · next inside =>
        split at done
        · cases done
        · next positive =>
            cases done
            simp only [bpfMaxInsns] at small
            have short : findKey table key < 65536 := by omega
            have positive := Bool.eq_false_iff.mpr positive
            have exact_ := exact_ short positive
            have leads := leads short positive (by omega)
            refine ⟨_,
              { stands := .ja plain
                admissible := fun _ => ?_
                merges := Or.inl ?_
                valid := fun _ => rfl
                jt := leads
                jf := fun conditional => ?_
                same := rfl
                keys := ⟨key_, rfl⟩ }⟩
            · simp only [Insn.Admissible, BitVec.toNat_ofNat]
              omega
            · simp only [Insn.targets, BitVec.toNat_ofNat, List.map_cons, List.map_nil,
                List.cons.injEq, and_true]
              omega
            · simp [plain] at conditional

omit small place in
theorem jmp_admits (resolved : JumpLine) (op : JmpOp) (src : Src) (reversed : Bool)
    (comparator : resolved.comparator = if reversed then op.reverseType else op.type)
    (able : reversed = true → op ≠ .jset) (operand : resolved.cmpobj.src? = some src)
    (conditional : resolved.ifCondition = true) (jt : Leads table bpfLen codeNr resolved.jt)
    (jf : Leads table bpfLen codeNr resolved.jf) (jtNear : resolved.jt.codeNr ≤ 255)
    (jfNear : resolved.jf.codeNr ≤ 255) (target : Nat)
    (exact_ : target = codeNr + resolved.jt.codeNr + 1)
    (same : resolved = { line with jt := resolved.jt, jf := resolved.jf })
    (keys : resolved.jt.key = line.jt.key ∧ resolved.jf.key = line.jf.key) :
    ∃ insn, JumpAdmits table bpfLen codeNr line resolved
      [target, codeNr + resolved.jf.codeNr + 1] insn := by
  have jtInside := jt.inside
  have jfInside := jf.inside
  refine ⟨_,
    { stands := .jmp op src reversed conditional comparator able operand
      admissible := fun _ => ?_
      merges := ?_
      valid := fun _ => rfl
      jt, jf := fun _ => jf, same, keys }⟩
  · simp only [Insn.Admissible, BitVec.toNat_ofNat]
    split <;> omega
  · simp only [Insn.targets, BitVec.toNat_ofNat]
    split
    · refine Or.inr ?_
      simp only [List.map_cons, List.map_nil, List.reverse_cons, List.reverse_nil, List.nil_append,
        List.cons_append, List.cons.injEq, and_true]
      omega
    · refine Or.inl ?_
      simp only [List.map_cons, List.map_nil, List.cons.injEq, and_true]
      omega

omit first in
theorem jf_leads (key : line.jf = .zero ∨ line.jf.Named)
    (_ : ¬ (line.jf.key.isSome ∧ Resolver.jfTarget table codeNr line = Resolver.labelNotFound))
    (fits : ∀ key, findKey table key < 65536)
    (positive : Resolver.isNegative16
      (Resolver.setJtJf line.jf codeNr (Resolver.jfTarget table codeNr line)) = false)
    (inside : codeNr +
      (Resolver.setJtJf line.jf codeNr (Resolver.jfTarget table codeNr line)).codeNr + 1 ≤ bpfLen) :
    Leads table bpfLen codeNr
      (Resolver.setJtJf line.jf codeNr (Resolver.jfTarget table codeNr line)) := by
  rcases key with zero | ⟨key, named, _⟩
  · have none : line.jf.key = none := by rw [zero]; rfl
    have next : Resolver.jfTarget table codeNr line = codeNr + 1 := by
      simp [Resolver.jfTarget, none]
    rw [next] at positive inside ⊢
    simp only [bpfMaxInsns] at small
    have exact_ := distance_exact line.jf codeNr (codeNr + 1) (by simp only [bpfMaxInsns]; omega)
      (by omega) positive
    have key_ := set_jt_jf_key line.jf codeNr (codeNr + 1)
    refine { inside, found := fun other same => ?_, default := fun _ => by omega }
    rw [key_, none] at same
    cases same
  · have target : Resolver.jfTarget table codeNr line = findKey table key := by
      simp [Resolver.jfTarget, Resolver.findLabel, named]
    rw [target] at positive inside ⊢
    exact label_leads table bpfLen codeNr line.jf key (Nat.le_trans place small) named (fits key)
      positive inside

theorem jmp_stands (shaped : line.Shaped) (conditional : line.ifCondition = true)
    (fits : ∀ key, findKey table key < 65536) (resolved : JumpLine) (targets : List Nat)
    (done : Resolver.jumpLine table bpfLen codeNr line = (resolved, .ok targets)) :
    ∃ insn, JumpAdmits table bpfLen codeNr line resolved targets insn := by
  obtain ⟨key, label, _⟩ := shaped.jt
  have found : Resolver.findLabel table line.jt = findKey table key := by
    simp [Resolver.findLabel, label]
  obtain ⟨op, reversed, comparator, able⟩ := comparator_operator _ (shaped.comparator conditional)
  obtain ⟨src, operand⟩ : ∃ src, line.cmpobj.src? = some src := by
    rcases shaped.operand conditional with type | type
    · exact ⟨.x, by simp [Obj.src?, type]⟩
    · exact ⟨.k line.cmpobj.data, by simp [Obj.src?, type]⟩
  unfold Resolver.jumpLine at done
  rw [if_neg (by simp [conditional]), found] at done
  have leads := label_leads table bpfLen codeNr line.jt key (Nat.le_trans place small) label
    (fits key)
  have exact_ := distance_exact line.jt codeNr (findKey table key) (Nat.le_trans place small)
    (fits key)
  have key_ := set_jt_jf_key line.jt codeNr (findKey table key)
  generalize Resolver.setJtJf line.jt codeNr (findKey table key) = jt at *
  unfold Resolver.jtLine at done
  split at done
  · cases done
  · split at done
    · cases done
    · next near =>
        obtain ⟨positive, jtNear⟩ := distance_error_none _ _ _ near
        have exact_ := exact_ positive
        split at done
        · cases done
        · next inside =>
            have leads := leads positive (by omega)
            have elses := @jf_leads table bpfLen codeNr line small place shaped.jf
            have jfKey := set_jt_jf_key line.jf codeNr (Resolver.jfTarget table codeNr line)
            generalize Resolver.jfTarget table codeNr line = other at *
            generalize Resolver.setJtJf line.jf codeNr other = jf at *
            unfold Resolver.jfLine at done
            split at done
            · cases done
            · next present =>
                split at done
                · cases done
                · next near =>
                    obtain ⟨positive, jfNear⟩ := distance_error_none _ _ _ near
                    split at done
                    · cases done
                    · next inside =>
                        cases done
                        exact jmp_admits first { line with jt, jf } op src reversed comparator able
                          operand conditional leads
                          (elses present fits positive (by omega)) jtNear jfNear _ exact_
                          rfl ⟨key_, jfKey⟩

end Jumps

end Ceccomp
