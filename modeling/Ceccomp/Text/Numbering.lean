import Ceccomp.Text.Shape

/-!
The numbers `parser` gives its statements, the labels it collects, and that its
loop ends: one statement for each line, and perhaps one for what was left when the
scanner gave up.
-/

namespace Ceccomp

namespace Parser

instance moves_line_end (comment : Option Nat) : Moves (lineEnd comment) := by
  unfold lineEnd
  infer_instance

instance moves_expression (lib : Libseccomp) (localArch : Word) (local_ : Statement) :
    Moves (expression lib localArch local_) := by
  unfold expression
  dsimp only
  infer_instance

theorem line_end_run (comment : Option Nat) (s : Tokens) :
    lineEnd comment s =
      if s.next.type = .eol then .ok s.next s.advance
      else if s.next.type = .tokenEof then .ok s.next s
      else .error (.raised s.next.start .unexpectToken comment) (s.sync s.syncFuel) := by
  unfold lineEnd
  simp only [match_bind, peek_bind, get_bind, ite_run, pure_run, raise_at_run, if_true,
    Bool.false_eq_true, if_false, beq_iff_eq]
  rfl

theorem line_end_over (comment : Option Nat) (s : Tokens) (ending : Token) (after : Tokens)
    (ran : lineEnd comment s = .ok ending after) : s.LineOver after := by
  rw [line_end_run] at ran
  split at ran
  · next eol =>
      cases ran
      exact eol_over s eol
  · split at ran
    · next eof =>
        cases ran
        exact Or.inr ⟨Nat.le_refl _, eof⟩
    · cases ran

theorem expression_over (lib : Libseccomp) (localArch : Word) (local_ : Statement) (s : Tokens)
    (statement : Statement) (after : Tokens)
    (ran : expression lib localArch local_ s = .ok statement after) : s.LineOver after := by
  unfold expression at ran
  obtain ⟨line, s1, one, ran⟩ := (bind_ok ..).mp ran
  obtain ⟨commented, s2, two, ran⟩ := (bind_ok ..).mp ran
  have reached := reaches_trans _ _ _ (Moves.reaches _ _ _ one) (Moves.reaches _ _ _ two)
  simp only [ite_run, get_bind, pure_bind] at ran
  split at ran <;>
  · obtain ⟨ending, s3, three, ran⟩ := (bind_ok ..).mp ran
    cases ran
    exact line_over_later _ _ _ reached (line_end_over _ _ _ _ three)

end Parser

/-- A line was parsed: the statement is one the parser can build, and the line is over. -/
structure LineDone (local_ : Statement) (s : Tokens) (statement : Statement) (after : Tokens) :
    Prop where
  parsed : Parser.StatementParsed local_ statement
  ended : s.LineOver after

theorem run_line_done (action : Parse Statement) [moves : Parser.Moves action]
    (local_ : Statement) (yields : Parser.Yields action (Parser.StatementParsed local_))
    (ends : ∀ s statement after, action s = .ok statement after → s.LineOver after)
    (s : Tokens) (statement : Statement) (after : Tokens)
    (ran : runLine action local_ s = .ok (statement, after)) : LineDone local_ s statement after := by
  unfold runLine at ran
  split at ran
  · next done =>
      cases ran
      exact { parsed := yields _ _ _ done, ended := ends _ _ _ done }
  · next errorStart errorMsg _ done =>
      cases ran
      exact
        { parsed :=
            { textNr := rfl
              codeNr := rfl
              labelDecl := rfl
              line := Or.inr (Or.inr (Or.inl ⟨_, rfl⟩)) }
          ended := moves.ended _ _ _ _ _ done }
  · cases ran

/-- What `parse_line` does to the numbers and the labels. -/
structure LineStep (state : ParseState) (statement : Statement) (next : ParseState) : Prop where
  textNr : statement.textNr = (state.textNr + 1) % 2 ^ 16
  codeNr : statement.codeNr = (state.codeNr + 1) % 2 ^ 16
  line : statement.line = .empty ∨ statement.line = .eof ∨ (∃ error, statement.line = .error error) ∨
    (statement.line.Shaped ∧ statement.codeNr ≤ bpfMaxInsns)
  nextText : next.textNr = (state.textNr + 1) % 2 ^ 16
  nextCode : next.codeNr =
    if statement.line = .empty then state.codeNr % 2 ^ 16 else (state.codeNr + 1) % 2 ^ 16
  ended : state.tokens.LineOver next.tokens
  labels : (statement.labelDecl = none ∧ next.table = state.table) ∨
    ∃ key, statement.labelDecl = some key ∧
      (((∃ nr, (key, nr) ∈ state.table) ∧ (∃ error, statement.line = .error error) ∧
          next.table = state.table) ∨
        ((∀ nr, (key, nr) ∉ state.table) ∧ next.table = state.table ++ [(key, statement.codeNr)]))

theorem insert_key_cases (table : LabelTable) (key : Text) (nr : Nat) :
    ((insertKey table key nr).1 = true ∧ (∃ old, (key, old) ∈ table) ∧
        (insertKey table key nr).2 = table) ∨
      ((insertKey table key nr).1 = false ∧ (∀ old, (key, old) ∉ table) ∧
        (insertKey table key nr).2 = table ++ [(key, nr)]) := by
  unfold insertKey
  cases found : table.find? (fun entry => entry.1 = key) with
  | some entry =>
      have same : entry.1 = key := by simpa using List.find?_some found
      exact Or.inl ⟨rfl, ⟨entry.2, same ▸ List.mem_of_find?_eq_some found⟩, rfl⟩
  | none =>
      refine Or.inr ⟨rfl, fun old member => ?_, rfl⟩
      have absent := List.find?_eq_none.mp found _ member
      simp at absent

theorem finished (done : Except Message (Statement × Tokens)) (textNr codeNr : Nat)
    (table : LabelTable) (statement : Statement) (next : ParseState)
    (finish : done.map (fun (statement, tokens) =>
      let codeNr := if statement.line = .empty then (codeNr + 2 ^ 16 - 1) % 2 ^ 16 else codeNr
      (statement, ({ textNr, codeNr, tokens, table } : ParseState))) = .ok (statement, next)) :
    ∃ tokens, done = .ok (statement, tokens) ∧ next =
      { textNr
        codeNr := if statement.line = .empty then (codeNr + 2 ^ 16 - 1) % 2 ^ 16 else codeNr
        tokens, table } := by
  cases done with
  | error message => cases finish
  | ok both =>
      obtain ⟨found, tokens⟩ := both
      simp only [Except.map, Except.ok.injEq, Prod.mk.injEq] at finish
      obtain ⟨rfl, rfl⟩ := finish
      exact ⟨tokens, rfl, rfl⟩

theorem line_done_step (state : ParseState) (local_ statement : Statement) (s tokens : Tokens)
    (table : LabelTable) (done : LineDone local_ s statement tokens)
    (reached : state.tokens.Reaches s) (textNr : local_.textNr = (state.textNr + 1) % 2 ^ 16)
    (codeNr : local_.codeNr = (state.codeNr + 1) % 2 ^ 16)
    (labels : (local_.labelDecl = none ∧ table = state.table) ∨
      ∃ key, local_.labelDecl = some key ∧
        (((∃ nr, (key, nr) ∈ state.table) ∧ (∃ error, statement.line = .error error) ∧
            table = state.table) ∨
          ((∀ nr, (key, nr) ∉ state.table) ∧ table = state.table ++ [(key, local_.codeNr)]))) :
    LineStep state statement
      { textNr := (state.textNr + 1) % 2 ^ 16
        codeNr := if statement.line = .empty then ((state.codeNr + 1) % 2 ^ 16 + 2 ^ 16 - 1) % 2 ^ 16
          else (state.codeNr + 1) % 2 ^ 16
        tokens, table } where
  textNr := done.parsed.textNr.trans textNr
  codeNr := done.parsed.codeNr.trans codeNr
  line := by
    rw [done.parsed.codeNr]
    exact done.parsed.line
  nextText := rfl
  nextCode := by
    dsimp only
    split
    · omega
    · rfl
  ended := line_over_later _ _ _ reached done.ended
  labels := by
    rw [done.parsed.labelDecl, done.parsed.codeNr]
    exact labels

theorem parse_line_step (lib : Libseccomp) (localArch : Word) (state : ParseState)
    (statement : Statement) (next : ParseState)
    (parsed : parseLine lib localArch state = .ok (statement, next)) :
    LineStep state statement next := by
  unfold parseLine at parsed
  dsimp only at parsed
  split at parsed
  · have reached : state.tokens.Reaches state.tokens.advance := .advance _ .here
    split at parsed
    · next duplicate =>
        obtain ⟨tokens, ran, rfl⟩ := finished _ _ _ _ _ _ parsed
        rcases insert_key_cases state.table _ _ with ⟨_, old, kept⟩ | ⟨new, _⟩
        · have done := run_line_done _ _ (fun _ _ _ raised => by cases raised)
            (fun _ _ _ raised => by cases raised) _ _ _ ran
          obtain ⟨error, failed⟩ : ∃ error, statement.line = .error error := by
            cases ran
            exact ⟨_, rfl⟩
          exact line_done_step state _ statement _ tokens _ done reached rfl rfl
            (Or.inr ⟨_, rfl, Or.inl ⟨old, ⟨error, failed⟩, kept⟩⟩)
        · rw [new] at duplicate
          cases duplicate
    · next fresh =>
        obtain ⟨tokens, ran, rfl⟩ := finished _ _ _ _ _ _ parsed
        rcases insert_key_cases state.table _ _ with ⟨old, _⟩ | ⟨_, absent, added⟩
        · exact absurd old fresh
        · have done := run_line_done _ _ (fun s value after ran => by
              obtain ⟨_, s1, _, ran⟩ := (Parser.bind_ok ..).mp ran
              exact Parser.expression_parsed lib localArch _ _ _ _ ran)
            (fun s value after ran => by
              obtain ⟨_, s1, skipped, ran⟩ := (Parser.bind_ok ..).mp ran
              exact line_over_later _ _ _ (Parser.Moves.reaches _ _ _ skipped)
                (Parser.expression_over lib localArch _ _ _ _ ran)) _ _ _ ran
          exact line_done_step state _ statement _ tokens _ done reached rfl rfl
            (Or.inr ⟨_, rfl, Or.inr ⟨absent, added⟩⟩)
  · obtain ⟨tokens, ran, rfl⟩ := finished _ _ _ _ _ _ parsed
    have done := run_line_done _ _ (Parser.expression_parsed lib localArch _)
      (Parser.expression_over lib localArch _) _ _ _ ran
    exact line_done_step state _ statement _ tokens state.table done .here rfl rfl
      (Or.inl ⟨rfl, rfl⟩)

theorem parse_line_eof (lib : Libseccomp) (localArch : Word) (state : ParseState)
    (statement : Statement) (next : ParseState) (eof : state.tokens.next.type = .tokenEof)
    (parsed : parseLine lib localArch state = .ok (statement, next)) : statement.line = .eof := by
  unfold parseLine at parsed
  dsimp only at parsed
  rw [if_neg (by rw [eof]; decide)] at parsed
  obtain ⟨tokens, ran, _⟩ := finished _ _ _ _ _ _ parsed
  unfold runLine Parser.expression at ran
  simp only [Parser.bind_run, Parser.line_run, eof, Parser.match_run, Parser.pure_run,
    Parser.line_end_run, reduceCtorEq, if_false, or_self, if_true, Bool.false_eq_true] at ran
  cases ran
  rfl

def countCode (text : List Statement) : Nat := (codePtrs text).length

/-- What the loop of `parser` adds to the statements and labels it has. -/
structure TextFrom (state : ParseState) (text : List Statement) (last : ParseState) : Prop where
  textNr : ∀ (i : Nat) statement, text[i]? = some statement →
    statement.textNr = (state.textNr + 1 + i) % 2 ^ 16
  codeNr : ∀ (i : Nat) statement, text[i]? = some statement →
    statement.codeNr = (state.codeNr + 1 + countCode (text.take i)) % 2 ^ 16
  line : ∀ statement ∈ text, statement.line = .empty ∨ (∃ error, statement.line = .error error) ∨
    (statement.line.Shaped ∧ statement.codeNr ≤ bpfMaxInsns)
  labels : ∀ key nr, (key, nr) ∈ last.table → (key, nr) ∈ state.table ∨
    (∃ statement ∈ text, statement.labelDecl = some key ∧ statement.codeNr = nr) ∨
    nr = (state.codeNr + 1 + countCode text) % 2 ^ 16
  length : text.length ≤ state.tokens.pending + (if state.tokens.next.type = .tokenEof then 0 else 1)

theorem count_code_cons (statement : Statement) (text : List Statement) :
    countCode (statement :: text) =
      countCode text + (if statement.line = .empty then 0 else 1) := by
  by_cases empty : statement.line = .empty <;> simp [countCode, codePtrs, empty]

theorem text_from_cons (state : ParseState) (statement : Statement) (next : ParseState)
    (later : List Statement) (last : ParseState) (step : LineStep state statement next)
    (more : statement.line ≠ .eof) (open_ : state.tokens.next.type ≠ .tokenEof)
    (rest : TextFrom next later last) : TextFrom state (statement :: later) last where
  textNr i other found := by
    cases i with
    | zero =>
        cases found
        exact step.textNr
    | succ i =>
        have number := rest.textNr i other found
        rw [step.nextText] at number
        omega
  codeNr i other found := by
    cases i with
    | zero =>
        cases found
        exact step.codeNr
    | succ i =>
        have number := rest.codeNr i other found
        rw [step.nextCode] at number
        rw [List.take_succ_cons, count_code_cons]
        split at number <;> simp only [*, if_true, if_false] <;> omega
  line other member := by
    rcases List.mem_cons.mp member with rfl | there
    · rcases step.line with empty | eof | error | shaped
      · exact Or.inl empty
      · exact absurd eof more
      · exact Or.inr (Or.inl error)
      · exact Or.inr (Or.inr shaped)
    · exact rest.line other there
  labels key nr member := by
    -- a label of the table is an old one, this line's own or one of the lines below
    rcases rest.labels key nr member with old | ⟨other, there, declared⟩ | behind
    · rcases step.labels with ⟨_, same⟩ | ⟨key', declares, ⟨_, _, same⟩ | ⟨_, same⟩⟩
      · exact Or.inl (same ▸ old)
      · exact Or.inl (same ▸ old)
      · rw [same, List.mem_append, List.mem_singleton] at old
        rcases old with old | added
        · exact Or.inl old
        · cases added
          exact Or.inr (Or.inl ⟨statement, List.mem_cons_self, declares, rfl⟩)
    · exact Or.inr (Or.inl ⟨other, List.mem_cons_of_mem _ there, declared⟩)
    · refine Or.inr (Or.inr ?_)
      rw [behind, step.nextCode, count_code_cons]
      split <;> omega
  length := by
    have few := rest.length
    rw [if_neg open_, List.length_cons]
    rcases step.ended with fewer | ⟨same, eof⟩
    · split at few <;> omega
    · rw [if_pos eof] at few
      omega

theorem parse_lines_text (lib : Libseccomp) (localArch : Word) (fuel : Nat) (state : ParseState)
    (text : List Statement) (last : ParseState)
    (parsed : parseLines lib localArch fuel state = some (.ok (text, last))) :
    TextFrom state text last := by
  induction fuel generalizing state text with
  | zero => cases parsed
  | succ fuel ih =>
      unfold parseLines at parsed
      split at parsed
      · cases parsed
      · next statement next line =>
          have step := parse_line_step lib localArch state statement next line
          split at parsed
          · next eof =>
              cases parsed
              refine
                { textNr := by simp
                  codeNr := by simp
                  line := by simp
                  labels := fun key nr member => ?_
                  length := Nat.zero_le _ }
              rcases step.labels with ⟨_, same⟩ | ⟨declared, _, ⟨_, _, same⟩ | ⟨_, same⟩⟩
              · exact Or.inl (same ▸ member)
              · exact Or.inl (same ▸ member)
              · rw [same, List.mem_append, List.mem_singleton] at member
                rcases member with old | added
                · exact Or.inl old
                · cases added
                  exact Or.inr (Or.inr step.codeNr)
          · next more =>
              obtain ⟨done, loop, same⟩ := Option.map_eq_some_iff.mp parsed
              cases done with
              | error message => cases same
              | ok both =>
                  obtain ⟨later, end_⟩ := both
                  cases same
                  exact text_from_cons state statement next later _ step more
                    (fun eof => absurd (parse_line_eof lib localArch state statement next eof line) more)
                    (ih next later loop)

end Ceccomp
