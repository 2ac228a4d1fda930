import Ceccomp.Text.Progress

/-!
The lines the parser can build: which token types may stand at each place of a
statement, whatever the text.
-/

namespace Ceccomp

def aluOperators : List TokenType :=
  [.addTo, .subTo, .multiTo, .divideTo, .lshTo, .rshTo, .andTo, .orTo, .xorTo]

def rightTypes : List TokenType :=
  [.A, .X, .attrLen, .attrSyscall, .attrArch, .attrLowpc, .attrHighpc, .mem, .attrLowarg,
    .attrHigharg, .number]

def comparators : List TokenType :=
  [.equalEqual, .bangEqual, .greaterEqual, .greaterThan, .lessEqual, .lessThan, .and]

structure AssignLine.Shaped (line : AssignLine) : Prop where
  left : line.leftVar.type ∈ [.A, .X, .mem]
  operator : line.operator ∈ .equal :: .negative :: aluOperators
  right : line.rightVar.type ∈ rightTypes
  length : line.rightVar.type = .attrLen → line.rightVar.data = 0

def Label.Named (label : Label) : Prop := ∃ key, label.key = some key ∧ key ≠ []

structure JumpLine.Shaped (line : JumpLine) : Prop where
  jt : line.jt.Named
  jf : line.jf = .zero ∨ line.jf.Named
  comparator : line.ifCondition = true → line.comparator ∈ comparators
  operand : line.ifCondition = true → line.cmpobj.type = .X ∨ line.cmpobj.type = .number

def ReturnLine.Shaped (line : ReturnLine) : Prop :=
  line.retObj.type ∈ [.A, .number, .trace, .trap, .errno] ∨
    (line.retObj.type ∈ [.killProc, .kill, .allow, .notify, .log] ∧ line.retObj.data = 0)

def Line.Shaped : Line → Prop
  | .assign line => line.Shaped
  | .jump line => line.Shaped
  | .return_ line => line.Shaped
  | .empty | .eof | .error _ => False

theorem alu_operator_range (type : TokenType) :
    type.fromTo .addTo .xorTo = true ↔ type ∈ aluOperators := by
  cases type <;> decide

theorem comparator_range (type : TokenType) :
    type.fromTo .equalEqual .and = true ↔ type ∈ comparators := by
  cases type <;> decide

theorem attr_range (type : TokenType) :
    type.fromTo .attrLen .attrHighpc = true ↔
      type ∈ [.attrLen, .attrSyscall, .attrArch, .attrLowpc, .attrHighpc] := by
  cases type <;> decide

theorem assignable_range (type : TokenType) :
    type.fromTo .A .mem = true ↔ type ∈ [.A, .X, .mem] := by
  cases type <;> decide

theorem data_action_range (type : TokenType) :
    type.fromTo .trace .errno = true ↔ type ∈ [.trace, .trap, .errno] := by
  cases type <;> decide

theorem plain_action_range (type : TokenType) :
    type.fromTo .killProc .log = true ↔ type ∈ [.killProc, .kill, .allow, .notify, .log] := by
  cases type <;> decide

theorem advance_current (s : Tokens) : s.advance.current = s.next := rfl

namespace Parser

variable {α β : Type}

def Yields (action : Parse α) (post : α → Prop) : Prop :=
  ∀ s value after, action s = .ok value after → post value

theorem return_line_shaped : Yields returnLine Line.Shaped := by
  intro s value after ran
  unfold returnLine at ran
  simp only [bind_assoc, get_bind, match_from_to_bind, match_bind, match_number_bind,
    literal_from_bind, pure_bind, ite_run, ite_bind, error_next_bind, if_true, Bool.false_eq_true,
    if_false, pure_run, advance_current] at ran
  split at ran
  · next action =>
      obtain ⟨data, between, _, ran⟩ := (bind_ok ..).mp ran
      cases ran
      have listed := (data_action_range _).mp action
      simp only [List.mem_cons, List.not_mem_nil, or_false] at listed
      exact Or.inl (by simp [listed])
  · split at ran
    · cases ran
      exact Or.inl (by simp)
    · split at ran
      · cases ran
      · split at ran
        · next action =>
            cases ran
            exact Or.inr ⟨(plain_action_range _).mp action, rfl⟩
        · split at ran
          · next register =>
              cases ran
              exact Or.inl (by simp [register])
          · cases ran

theorem left_shaped (s : Tokens) (value : Obj) (after : Tokens) (ran : left s = .ok value after) :
    value.type = s.current.type := by
  unfold left at ran
  simp only [get_bind, ite_run, pure_bind] at ran
  split at ran
  · obtain ⟨data, between, _, ran⟩ := (bind_ok ..).mp ran
    cases ran
    rfl
  · cases ran
    rfl

theorem operator_shaped : Yields operator (· ∈ .equal :: .negative :: aluOperators) := by
  intro s value after ran
  unfold operator at ran
  simp only [get_bind, match_from_to_bind, match_bind, ite_run, error_next_bind, pure_run,
    advance_current, Bool.not_true, Bool.not_false, if_true, Bool.false_eq_true, if_false] at ran
  split at ran
  · next alu =>
      cases ran
      simp [(alu_operator_range _).mp alu]
  · split at ran
    · next equal =>
        split at ran
        · next negative =>
            cases ran
            simp [negative]
        · cases ran
          simp [equal]
    · cases ran

theorem right_shaped : Yields right fun value =>
    value.type ∈ rightTypes ∧ (value.type = .attrLen → value.data = 0) := by
  intro s value after ran
  unfold right at ran
  simp only [get_bind, bind_assoc, match_from_to_bind, match_bind, match_number_bind, ite_run,
    ite_bind, pure_bind, error_next_bind, pure_run, advance_current, literal_from_bind, if_true,
    Bool.false_eq_true, if_false] at ran
  split at ran
  · next register =>
      cases ran
      simp [register, rightTypes, Obj.of]
  · split at ran
    · next register =>
        cases ran
        simp [register, rightTypes, Obj.of]
    · split at ran
      · next attr =>
          cases ran
          have listed := (attr_range _).mp attr
          simp only [List.mem_cons, List.not_mem_nil, or_false] at listed
          exact ⟨by rcases listed with h | h | h | h | h <;> simp [h, rightTypes], fun _ => rfl⟩
      · split at ran
        · next indexed =>
            obtain ⟨data, between, _, ran⟩ := (bind_ok ..).mp ran
            cases ran
            simp [indexed, rightTypes]
        · split at ran
          · next indexed =>
              obtain ⟨data, between, _, ran⟩ := (bind_ok ..).mp ran
              cases ran
              simp [indexed, rightTypes]
          · split at ran
            · next indexed =>
                obtain ⟨data, between, _, ran⟩ := (bind_ok ..).mp ran
                cases ran
                simp [indexed, rightTypes]
            · split at ran
              · cases ran
                simp [rightTypes]
              · split at ran <;> cases ran

theorem assign_line_shaped (s : Tokens) (target : s.current.type ∈ [.A, .X, .mem]) (value : Line)
    (after : Tokens) (ran : assignLine s = .ok value after) : value.Shaped := by
  unfold assignLine at ran
  obtain ⟨leftVar, s1, gotLeft, ran⟩ := (bind_ok ..).mp ran
  obtain ⟨operator, s2, gotOperator, ran⟩ := (bind_ok ..).mp ran
  obtain ⟨rightVar, s3, gotRight, ran⟩ := (bind_ok ..).mp ran
  cases ran
  have right := right_shaped s2 rightVar _ gotRight
  exact
    { left := left_shaped s leftVar s1 gotLeft ▸ target
      operator := operator_shaped s1 operator s2 gotOperator
      right := right.1
      length := right.2 }

theorem label_named (s : Tokens) (value : Label) (after : Tokens)
    (ran : label s.advance = .ok value after) : value.Named := by
  unfold label at ran
  simp only [match_bind, ite_run, error_next_bind, get_bind, Bool.not_true, Bool.not_false, if_true,
    Bool.false_eq_true, if_false, pure_run, advance_current] at ran
  split at ran
  · next word =>
      cases ran
      exact ⟨_, rfl, scanned_identifier _ word⟩
  · cases ran

theorem ja_line_shaped (s : Tokens) (value : Line) (after : Tokens)
    (ran : jaLine s.advance = .ok value after) : value.Shaped := by
  unfold jaLine at ran
  obtain ⟨jt, s1, gotLabel, ran⟩ := (bind_ok ..).mp ran
  cases ran
  exact
    { jt := label_named s jt _ gotLabel
      jf := Or.inl rfl
      comparator := nofun
      operand := nofun }

theorem compare_obj_shaped (lib : Libseccomp) (localArch : Word) :
    Yields (compareObj lib localArch) fun value => value.1.type = .X ∨ value.1.type = .number := by
  intro s value after ran
  unfold compareObj at ran
  simp only [get_bind, match_from_to_bind, match_bind, match_number_bind, ite_run, error_next_bind,
    error_current_bind, error_at_bind, pure_run, peek_bind, advance_bind, if_true,
    Bool.false_eq_true, if_false, Bool.not_true, Bool.not_false] at ran
  split at ran
  · cases ran
    exact Or.inl rfl
  · right
    repeat' split at ran
    all_goals cases ran
    all_goals rfl

theorem condition_shaped (lib : Libseccomp) (localArch : Word) :
    Yields (condition lib localArch) fun line =>
      line.ifCondition = true ∧ line.comparator ∈ comparators ∧
        (line.cmpobj.type = .X ∨ line.cmpobj.type = .number) ∧ line.jf = .zero := by
  intro s value after ran
  unfold condition at ran
  obtain ⟨ifBang, s1, _, ran⟩ := (bind_ok ..).mp ran
  simp only [get_bind, match_from_to_bind, match_bind, ite_run, error_next_bind,
    advance_current, if_true, Bool.false_eq_true, if_false, Bool.not_true, Bool.not_false] at ran
  split at ran
  · split at ran
    · split at ran
      · next comparator =>
          obtain ⟨⟨cmpobj, cmptype⟩, s2, compared, ran⟩ := (bind_ok ..).mp ran
          simp only [match_bind, ite_run, error_next_bind, if_true, Bool.false_eq_true, if_false,
            Bool.not_true, Bool.not_false, pure_run] at ran
          split at ran
          · cases ran
            exact ⟨rfl, (comparator_range _).mp comparator,
              compare_obj_shaped lib localArch _ _ _ compared, rfl⟩
          · cases ran
      · cases ran
    · cases ran
  · cases ran

theorem jump_line_shaped (lib : Libseccomp) (localArch : Word) :
    Yields (jumpLine lib localArch) Line.Shaped := by
  intro s value after ran
  unfold jumpLine at ran
  obtain ⟨line, s1, gotCondition, ran⟩ := (bind_ok ..).mp ran
  obtain ⟨_, comparator, operand, noElse⟩ := condition_shaped lib localArch _ _ _ gotCondition
  simp only [match_bind, ite_run, error_next_bind, if_true, Bool.false_eq_true, if_false,
    Bool.not_true, Bool.not_false] at ran
  split at ran
  · obtain ⟨jt, s2, gotJt, ran⟩ := (bind_ok ..).mp ran
    have jtNamed := label_named _ _ _ gotJt
    simp only [match_bind, ite_run, error_next_bind, if_true, Bool.false_eq_true, if_false,
      Bool.not_true, Bool.not_false, pure_run] at ran
    split at ran
    · split at ran
      · split at ran
        · obtain ⟨jf, s3, gotJf, ran⟩ := (bind_ok ..).mp ran
          cases ran
          exact
            { jt := jtNamed
              jf := Or.inr (label_named _ _ _ gotJf)
              comparator := fun _ => comparator
              operand := fun _ => operand }
        · cases ran
      · cases ran
    · cases ran
      exact
        { jt := jtNamed
          jf := Or.inl noElse
          comparator := fun _ => comparator
          operand := fun _ => operand }
  · cases ran

theorem line_run (lib : Libseccomp) (localArch : Word) (codeNr : Nat) (s : Tokens) :
    line lib localArch codeNr s =
      if s.next.type = .eol ∨ s.next.type = .comment then .ok .empty s
      else if s.next.type = .tokenEof then .ok .eof s
      else if codeNr > bpfMaxInsns then .error (.exit .statementOverflow) s
      else if s.next.type = .return_ then returnLine s.advance
      else if s.next.type = .if_ then jumpLine lib localArch s.advance
      else if s.next.type = .goto then jaLine s.advance
      else if s.next.type.fromTo .A .mem then assignLine s.advance
      else .error (.raised s.next.start .unexpectToken (some 0)) (s.sync s.syncFuel) := by
  unfold line
  simp only [bind_assoc, match_from_to_bind, match_bind, peek_bind, ite_run, ite_bind, pure_bind,
    error_next_run, if_true, Bool.false_eq_true, if_false, pure_run, beq_iff_eq]
  by_cases eol : s.next.type = .eol
  · simp [eol]
  · simp only [eol, if_false, false_or]
    rfl

theorem line_shaped (lib : Libseccomp) (localArch : Word) (codeNr : Nat) :
    Yields (line lib localArch codeNr) fun line =>
      line = .empty ∨ line = .eof ∨ (line.Shaped ∧ codeNr ≤ bpfMaxInsns) := by
  intro s value after ran
  rw [line_run] at ran
  split at ran
  · cases ran
    exact Or.inl rfl
  · split at ran
    · cases ran
      exact Or.inr (Or.inl rfl)
    · split at ran
      · cases ran
      · next few =>
          refine Or.inr (Or.inr ⟨?_, Nat.le_of_not_lt few⟩)
          split at ran
          · exact return_line_shaped _ _ _ ran
          · split at ran
            · exact jump_line_shaped lib localArch _ _ _ ran
            · split at ran
              · exact ja_line_shaped s _ _ ran
              · split at ran
                · next target =>
                    exact assign_line_shaped _ ((assignable_range _).mp target) _ _ ran
                · cases ran

/-- What `parse_line` makes of a statement: it keeps what was filled in before. -/
structure StatementParsed (local_ statement : Statement) : Prop where
  textNr : statement.textNr = local_.textNr
  codeNr : statement.codeNr = local_.codeNr
  labelDecl : statement.labelDecl = local_.labelDecl
  line : statement.line = .empty ∨ statement.line = .eof ∨ (∃ error, statement.line = .error error) ∨
    (statement.line.Shaped ∧ local_.codeNr ≤ bpfMaxInsns)

theorem expression_parsed (lib : Libseccomp) (localArch : Word) (local_ : Statement) :
    Yields (expression lib localArch local_) (StatementParsed local_) := by
  intro s value after ran
  unfold expression at ran
  obtain ⟨line, s1, gotLine, ran⟩ := (bind_ok ..).mp ran
  have shaped := line_shaped lib localArch _ _ _ _ gotLine
  obtain ⟨commented, s2, _, ran⟩ := (bind_ok ..).mp ran
  have keeps (comment : Option Nat) (s3 : Tokens)
      (ran : (do
        let ending ← lineEnd comment
        pure { local_ with
          line, comment, lineLen := (local_.lineStart.length - ending.start.length) % 2 ^ 16 } : Parse Statement) s3
        = .ok value after) : StatementParsed local_ value := by
    obtain ⟨ending, s4, _, ran⟩ := (bind_ok ..).mp ran
    cases ran
    exact
      { textNr := rfl
        codeNr := rfl
        labelDecl := rfl
        line := shaped.imp_right fun rest => rest.imp_right Or.inr }
  simp only [ite_run, get_bind, pure_bind] at ran
  split at ran
  · exact keeps _ _ ran
  · exact keeps _ _ ran

end Parser

end Ceccomp
