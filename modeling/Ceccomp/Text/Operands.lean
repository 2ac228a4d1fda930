import Ceccomp.Text.Program

/-!
How the operand of a comparison was spelled: the parser keeps the name it resolved, and
the resolver leaves it alone.
-/

namespace Ceccomp

/-- What the kind of a comparison says about its operand. -/
structure JumpLine.Spelled (lib : Libseccomp) (localArch : Word) (line : JumpLine) : Prop where
  plain : line.ifCondition = false → line.cmptype = .number
  sysName : line.cmptype = .syscall → line.cmpobj.type = .number ∧
    ∃ name, line.cmpobj.literal = some name ∧ line.cmpobj.data = lib.resolveNameArch localArch name
  arch : line.cmptype = .arch → line.cmpobj.type = .number ∧
    ∃ arch, (arch, line.cmpobj.data) ∈ archTable ++ archAliases

def Line.Spelled (lib : Libseccomp) (localArch : Word) : Line → Prop
  | .jump line => line.Spelled lib localArch
  | _ => True

theorem internal_arch_known (arch : TokenType) (known : internalArchToScmpArch arch ≠ 0xFFFFFFFF) :
    ∃ token, (token, internalArchToScmpArch arch) ∈ archTable ++ archAliases := by
  unfold internalArchToScmpArch at known ⊢
  split
  · next row found => exact ⟨row.1, List.mem_of_find?_eq_some found⟩
  · next missing =>
      rw [missing] at known
      exact absurd rfl known

namespace Parser

variable (lib : Libseccomp) (localArch : Word)

theorem compare_obj_spelled : Yields (compareObj lib localArch) fun value =>
    (value.2 = .syscall → value.1.type = .number ∧ ∃ name, value.1.literal = some name ∧
      value.1.data = lib.resolveNameArch localArch name) ∧
    (value.2 = .arch → value.1.type = .number ∧
      ∃ arch, (arch, value.1.data) ∈ archTable ++ archAliases) := by
  intro s value after ran
  unfold compareObj at ran
  simp only [get_bind, match_from_to_bind, match_bind, match_number_bind, ite_run, error_next_bind, error_current_bind, error_at_bind, pure_run, peek_bind,
    advance_bind, if_true, Bool.false_eq_true, if_false, Bool.not_true, Bool.not_false] at ran
  split at ran
  · cases ran
    exact ⟨nofun, nofun⟩
  · split at ran
    · cases ran
      exact ⟨nofun, nofun⟩
    · split at ran
      · cases ran
      · split at ran
        · split at ran
          · cases ran
          · cases ran
            exact ⟨fun _ => ⟨rfl, _, rfl, rfl⟩, nofun⟩
        · split at ran
          · split at ran
            · repeat' split at ran
              all_goals cases ran
              all_goals exact ⟨nofun, nofun⟩
            · split at ran
              · cases ran
              · next known =>
                  cases ran
                  exact ⟨nofun, fun _ => ⟨rfl, internal_arch_known _ known⟩⟩
          · cases ran

theorem condition_spelled : Yields (condition lib localArch) fun line =>
    line.ifCondition = true ∧ line.Spelled lib localArch := by
  intro s value after ran
  unfold condition at ran
  obtain ⟨ifBang, s1, _, ran⟩ := (bind_ok ..).mp ran
  simp only [get_bind, match_from_to_bind, match_bind, ite_run, error_next_bind,
    if_true, Bool.false_eq_true, if_false, Bool.not_true, Bool.not_false] at ran
  split at ran
  · split at ran
    · split at ran
      · obtain ⟨⟨cmpobj, cmptype⟩, s2, compared, ran⟩ := (bind_ok ..).mp ran
        obtain ⟨sysName, arch⟩ := compare_obj_spelled lib localArch _ _ _ compared
        simp only [match_bind, ite_run, error_next_bind, if_true, Bool.false_eq_true, if_false,
          Bool.not_true, Bool.not_false, pure_run] at ran
        split at ran
        · cases ran
          exact ⟨rfl, { plain := nofun, sysName, arch }⟩
        · cases ran
      · cases ran
    · cases ran
  · cases ran

theorem jump_line_spelled : Yields (jumpLine lib localArch) (Line.Spelled lib localArch) := by
  intro s value after ran
  unfold jumpLine at ran
  obtain ⟨line, s1, gotCondition, ran⟩ := (bind_ok ..).mp ran
  obtain ⟨conditional, spelled⟩ := condition_spelled lib localArch _ _ _ gotCondition
  have same (jt jf : Label) : JumpLine.Spelled lib localArch { line with jt, jf } :=
    { plain := spelled.plain, sysName := spelled.sysName, arch := spelled.arch }
  simp only [match_bind, ite_run, error_next_bind, if_true, Bool.false_eq_true, if_false,
    Bool.not_true, Bool.not_false] at ran
  split at ran
  · obtain ⟨jt, s2, _, ran⟩ := (bind_ok ..).mp ran
    simp only [match_bind, ite_run, error_next_bind, if_true, Bool.false_eq_true, if_false,
      Bool.not_true, Bool.not_false, pure_run] at ran
    split at ran
    · split at ran
      · split at ran
        · obtain ⟨jf, s3, _, ran⟩ := (bind_ok ..).mp ran
          cases ran
          exact same _ _
        · cases ran
      · cases ran
    · cases ran
      exact same _ _
  · cases ran

theorem return_line_spelled : Yields returnLine (Line.Spelled lib localArch) := by
  intro s value after ran
  unfold returnLine at ran
  simp only [bind_assoc, get_bind, match_from_to_bind, match_bind, match_number_bind,
    literal_from_bind, pure_bind, ite_run, ite_bind, error_next_bind, if_true, Bool.false_eq_true,
    if_false, pure_run] at ran
  split at ran
  · obtain ⟨data, between, _, ran⟩ := (bind_ok ..).mp ran
    cases ran
    trivial
  · repeat' split at ran
    all_goals cases ran
    all_goals trivial

theorem line_spelled (codeNr : Nat) :
    Yields (line lib localArch codeNr) (Line.Spelled lib localArch) := by
  intro s value after ran
  rw [line_run] at ran
  split at ran
  · cases ran
    trivial
  · split at ran
    · cases ran
      trivial
    · split at ran
      · cases ran
      · split at ran
        · exact return_line_spelled lib localArch _ _ _ ran
        · split at ran
          · exact jump_line_spelled lib localArch _ _ _ ran
          · split at ran
            · unfold jaLine at ran
              obtain ⟨jt, s1, _, ran⟩ := (bind_ok ..).mp ran
              cases ran
              exact { plain := fun _ => rfl, sysName := nofun, arch := nofun }
            · split at ran
              · unfold assignLine at ran
                obtain ⟨leftVar, s1, _, ran⟩ := (bind_ok ..).mp ran
                obtain ⟨operator, s2, _, ran⟩ := (bind_ok ..).mp ran
                obtain ⟨rightVar, s3, _, ran⟩ := (bind_ok ..).mp ran
                cases ran
                trivial
              · cases ran

theorem expression_spelled (local_ : Statement) :
    Yields (expression lib localArch local_) fun statement => statement.line.Spelled lib localArch := by
  intro s value after ran
  unfold expression at ran
  obtain ⟨line, s1, gotLine, ran⟩ := (bind_ok ..).mp ran
  have spelled := line_spelled lib localArch _ _ _ _ gotLine
  obtain ⟨commented, s2, _, ran⟩ := (bind_ok ..).mp ran
  simp only [ite_run, get_bind, pure_bind] at ran
  split at ran <;>
  · obtain ⟨ending, s4, _, ran⟩ := (bind_ok ..).mp ran
    cases ran
    exact spelled

end Parser

section Lines

variable (lib : Libseccomp) (localArch : Word)

theorem run_line_spelled (action : Parse Statement) (local_ : Statement)
    (yields : Parser.Yields action fun statement => statement.line.Spelled lib localArch)
    (s : Tokens) (statement : Statement) (after : Tokens)
    (ran : runLine action local_ s = .ok (statement, after)) :
    statement.line.Spelled lib localArch := by
  unfold runLine at ran
  split at ran
  · next done =>
      cases ran
      exact yields _ _ _ done
  · cases ran
    trivial
  · cases ran

theorem parse_line_spelled (state : ParseState) (statement : Statement) (next : ParseState)
    (parsed : parseLine lib localArch state = .ok (statement, next)) :
    statement.line.Spelled lib localArch := by
  unfold parseLine at parsed
  dsimp only at parsed
  split at parsed
  · split at parsed
    · obtain ⟨tokens, ran, _⟩ := finished _ _ _ _ _ _ parsed
      exact run_line_spelled lib localArch _ _ (fun _ _ _ raised => by cases raised) _ _ _ ran
    · obtain ⟨tokens, ran, _⟩ := finished _ _ _ _ _ _ parsed
      refine run_line_spelled lib localArch _ _ (fun s value after ran => ?_) _ _ _ ran
      obtain ⟨_, s1, _, ran⟩ := (Parser.bind_ok ..).mp ran
      exact Parser.expression_spelled lib localArch _ _ _ _ ran
  · obtain ⟨tokens, ran, _⟩ := finished _ _ _ _ _ _ parsed
    exact run_line_spelled lib localArch _ _ (Parser.expression_spelled lib localArch _) _ _ _ ran

theorem parse_lines_spelled (fuel : Nat) (state : ParseState) (text : List Statement)
    (last : ParseState) (parsed : parseLines lib localArch fuel state = some (.ok (text, last))) :
    ∀ statement ∈ text, statement.line.Spelled lib localArch := by
  induction fuel generalizing state text with
  | zero => cases parsed
  | succ fuel ih =>
      unfold parseLines at parsed
      split at parsed
      · cases parsed
      · next statement next line =>
          split at parsed
          · cases parsed
            simp
          · obtain ⟨done, loop, same⟩ := Option.map_eq_some_iff.mp parsed
            cases done with
            | error message => cases same
            | ok both =>
                obtain ⟨later, end_⟩ := both
                cases same
                rw [List.forall_mem_cons]
                exact ⟨parse_line_spelled lib localArch state statement next line, ih next later loop⟩

end Lines

/-- The resolver fills in the distances of the labels and leaves the rest of a jump alone;
a branch without a label keeps leading to the next statement. -/
structure JumpKept (line resolved : JumpLine) : Prop where
  ifBang : resolved.ifBang = line.ifBang
  ifCondition : resolved.ifCondition = line.ifCondition
  cmptype : resolved.cmptype = line.cmptype
  comparator : resolved.comparator = line.comparator
  cmpobj : resolved.cmpobj = line.cmpobj
  jt : resolved.jt.key = line.jt.key
  jf : resolved.jf.key = line.jf.key
  noElse : line.jf.key = none → line.jf.codeNr = 0 → resolved.jf.codeNr = 0

theorem jump_kept_labels (line : JumpLine) (jt jf : Label) (sameJt : jt.key = line.jt.key)
    (sameJf : jf.key = line.jf.key)
    (noElse : line.jf.key = none → line.jf.codeNr = 0 → jf.codeNr = 0) :
    JumpKept line { line with jt, jf } where
  ifBang := rfl
  ifCondition := rfl
  cmptype := rfl
  comparator := rfl
  cmpobj := rfl
  jt := sameJt
  jf := sameJf
  noElse := noElse

theorem jump_kept_spelled (lib : Libseccomp) (localArch : Word) (line resolved : JumpLine)
    (kept : JumpKept line resolved) (spelled : line.Spelled lib localArch) :
    resolved.Spelled lib localArch :=
  { plain := fun plain => by
      rw [kept.cmptype]
      exact spelled.plain (kept.ifCondition ▸ plain)
    sysName := fun named => by
      rw [kept.cmpobj]
      exact spelled.sysName (kept.cmptype ▸ named)
    arch := fun named => by
      rw [kept.cmpobj]
      exact spelled.arch (kept.cmptype ▸ named) }

theorem ja_line_kept (bpfLen target : Nat) (jt : Label) (line : JumpLine)
    (same : jt.key = line.jt.key) : JumpKept line (Resolver.jaLine bpfLen target jt line).1 := by
  have old := jump_kept_labels line line.jt line.jf rfl rfl fun _ next => next
  have new := jump_kept_labels line jt line.jf same rfl fun _ next => next
  unfold Resolver.jaLine
  split
  · exact old
  · split
    · exact old
    · split <;> exact new

theorem jf_line_kept (bpfLen codeNr target other : Nat) (jt jf : Label) (line : JumpLine)
    (sameJt : jt.key = line.jt.key) (sameJf : jf.key = line.jf.key)
    (noElse : line.jf.key = none → line.jf.codeNr = 0 → jf.codeNr = 0) :
    JumpKept line (Resolver.jfLine bpfLen codeNr target other jf { line with jt }).1 := by
  have old := jump_kept_labels line jt line.jf sameJt rfl fun _ next => next
  have new := jump_kept_labels line jt jf sameJt sameJf noElse
  unfold Resolver.jfLine
  split
  · exact old
  · split
    · exact new
    · split <;> exact new

theorem set_next (label : Label) (codeNr : Nat) :
    (Resolver.setJtJf label codeNr (codeNr + 1)).codeNr = 0 := by
  have next : codeNr + 1 + 2 ^ 32 - codeNr - 1 = 2 ^ 32 := by omega
  show (codeNr + 1 + 2 ^ 32 - codeNr - 1) % 2 ^ 16 = 0
  rw [next]
  decide

theorem jt_line_kept (table : LabelTable) (bpfLen codeNr target : Nat) (jt : Label)
    (line : JumpLine) (same : jt.key = line.jt.key) :
    JumpKept line (Resolver.jtLine table bpfLen codeNr target jt line).1 := by
  have old := jump_kept_labels line line.jt line.jf rfl rfl fun _ next => next
  have new := jump_kept_labels line jt line.jf same rfl fun _ next => next
  unfold Resolver.jtLine
  split
  · exact old
  · split
    · exact new
    · split
      · exact new
      · apply jf_line_kept _ _ _ _ _ _ _ same (set_jt_jf_key ..)
        intro noLabel _
        unfold Resolver.jfTarget
        rw [if_pos (by simp [noLabel])]
        exact set_next line.jf codeNr

theorem jump_line_kept (table : LabelTable) (bpfLen codeNr : Nat) (line : JumpLine) :
    JumpKept line (Resolver.jumpLine table bpfLen codeNr line).1 := by
  unfold Resolver.jumpLine
  dsimp only
  split
  · apply ja_line_kept
    exact set_jt_jf_key ..
  · apply jt_line_kept
    exact set_jt_jf_key ..

theorem resolve_statement_spelled (lib : Libseccomp) (localArch : Word) (table : LabelTable)
    (bpfLen : Nat) (statement : Statement) (state : ResolveState)
    (spelled : statement.line.Spelled lib localArch) :
    (resolveStatement table bpfLen statement state).1.line.Spelled lib localArch := by
  unfold resolveStatement
  cases shape : statement.line with
  | jump line =>
      rw [shape] at spelled
      have kept := jump_kept_spelled lib localArch line _
        (jump_line_kept table bpfLen statement.codeNr line) spelled
      dsimp only
      generalize Resolver.jumpLine table bpfLen statement.codeNr line = both at kept ⊢
      split <;> exact kept
  | assign line | return_ line =>
      dsimp only
      split <;> simp [Line.Spelled, shape]
  | empty | eof | error line => simp [Line.Spelled, shape]

theorem resolve_from_spelled (lib : Libseccomp) (localArch : Word) (table : LabelTable)
    (bpfLen nr : Nat) (code : List Statement) (state : ResolveState)
    (spelled : ∀ statement ∈ code, statement.line.Spelled lib localArch) :
    ∀ statement ∈ (resolveFrom table bpfLen nr code state).1,
      statement.line.Spelled lib localArch := by
  induction code generalizing nr state with
  | nil =>
      unfold resolveFrom
      simp
  | cons statement rest ih =>
      rw [List.forall_mem_cons] at spelled
      unfold resolveFrom
      dsimp only
      rw [List.forall_mem_cons]
      exact ⟨resolve_statement_spelled lib localArch table bpfLen statement _ spelled.1,
        ih _ _ spelled.2⟩

theorem program_spelled {lib : Libseccomp} {localArch : Word} (program : TextProgram lib localArch) :
    ∀ statement ∈ program.code, statement.line.Spelled lib localArch := by
  obtain ⟨done, loop, same⟩ := Option.map_eq_some_iff.mp program.parses
  cases done with
  | error message => cases same
  | ok both =>
      obtain ⟨text, last⟩ := both
      have parsed : program.parsed = { text, table := last.table } := (Except.ok.inj same).symm
      have spelled := parse_lines_spelled lib localArch _ _ text last loop
      obtain ⟨_, resolved, _⟩ := resolver_run _ _ _ program.resolves
      rw [← resolved]
      apply resolve_from_spelled
      intro statement member
      rw [parsed] at member
      exact spelled statement (List.mem_filter.mp member).1

end Ceccomp
