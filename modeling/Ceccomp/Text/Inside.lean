import Ceccomp.Text.Numbering

/-!
What the parser takes in: a rule consumes only tokens that it asked for, which are
neither unknown nor too large nor the end of the line, and an error is raised at a
token from which `error_at` skips the rest of the line.
-/

namespace Ceccomp

def refused : List TokenType := [.eol, .tokenEof, .comment, .unknown, .overflowNumber]

/-- A state so many tokens further on in the same line. -/
inductive Tokens.Inside (start : Tokens) : Nat → Tokens → Prop where
  | here : Tokens.Inside start 0 start
  | advance (count : Nat) (tokens : Tokens) (early : Tokens.Inside start count tokens)
      (taken : tokens.next.type ∉ refused) : Tokens.Inside start (count + 1) tokens.advance

theorem inside_trans (a b c : Tokens) (n m : Nat) (first : a.Inside n b) (second : b.Inside m c) :
    a.Inside (n + m) c := by
  induction second with
  | here => exact first
  | advance count tokens _ taken ih => exact ih.advance (n + count) tokens taken

theorem inside_reaches (a b : Tokens) (n : Nat) (inside : a.Inside n b) : a.Reaches b := by
  induction inside with
  | here => exact .here
  | advance _ tokens _ _ ih => exact ih.advance

/-- A token of the line from its first on; the current and the previous one are of this
line once so many were taken. -/
def Tokens.Raises (tokens : Tokens) (taken : Nat) (errorStart : Text) : Prop :=
  errorStart = tokens.next.start ∨ (1 ≤ taken ∧ errorStart = tokens.current.start) ∨
    (2 ≤ taken ∧ errorStart = tokens.previous.start)

/-- The token an error is raised at, and the line skipped from there. -/
structure Tokens.Fails (start : Tokens) (errorStart : Text) (after : Tokens) : Prop where
  skipped : ∃ taken failed, start.Inside taken failed ∧ after = failed.sync failed.syncFuel ∧
    failed.Raises taken errorStart

theorem raises_later (tokens : Tokens) (n m : Nat) (errorStart : Text)
    (raises : tokens.Raises m errorStart) : tokens.Raises (n + m) errorStart := by
  rcases raises with next | ⟨one, current⟩ | ⟨two, previous⟩
  · exact Or.inl next
  · exact Or.inr (Or.inl ⟨by omega, current⟩)
  · exact Or.inr (Or.inr ⟨by omega, previous⟩)

theorem fails_later (a b after : Tokens) (n : Nat) (errorStart : Text) (first : a.Inside n b)
    (fails : b.Fails errorStart after) : a.Fails errorStart after := by
  obtain ⟨taken, failed, inside, skipped, raises⟩ := fails.skipped
  exact ⟨n + taken, failed, inside_trans a b failed n taken first inside, skipped,
    raises_later failed n taken errorStart raises⟩

namespace Parser

variable {α β : Type}

/-- The action takes in tokens it asked for, and fails as `error_at` does. -/
class Takes (action : Parse α) : Prop where
  ok : ∀ s value after, action s = .ok value after → ∃ taken, s.Inside taken after
  fails : ∀ s errorStart message comment after,
    action s = .error (.raised errorStart message comment) after →
    s.Fails errorStart after

theorem takes_still (action : Parse α) (value : Tokens → α)
    (runs : ∀ s, action s = .ok (value s) s) : Takes action where
  ok s result after ran := by
    rw [runs] at ran
    cases ran
    exact ⟨0, .here⟩
  fails s errorStart message comment after ran := by
    rw [runs] at ran
    cases ran

instance takes_pure (a : α) : Takes (pure a : Parse α) := takes_still _ (fun _ => a) fun _ => rfl

instance takes_get : Takes (get : Parse Tokens) := takes_still _ id fun _ => rfl

instance takes_peek (expected : TokenType) : Takes (peek expected) :=
  takes_still _ (fun s => s.next.type == expected) fun _ => rfl

instance takes_literal_from (start : Text) : Takes (literalFrom start) :=
  takes_still _ _ fun _ => rfl

instance takes_exit (message : Message) : Takes (throw (.exit message) : Parse α) where
  ok s result after ran := by cases ran
  fails s errorStart message comment after ran := by cases ran

instance takes_error_next (message : Message) : Takes (errorNext message : Parse α) where
  ok s value after ran := by cases ran
  fails s errorStart other comment after ran := by
    rw [error_next_run] at ran
    cases ran
    exact ⟨0, s, .here, rfl, Or.inl rfl⟩

instance takes_bind (action : Parse α) (next : α → Parse β) [first : Takes action]
    [second : ∀ a, Takes (next a)] : Takes (action >>= next) where
  ok s value after ran := by
    obtain ⟨a, between, one, two⟩ := (bind_ok ..).mp ran
    obtain ⟨n, inside⟩ := first.ok _ _ _ one
    obtain ⟨m, later⟩ := (second a).ok _ _ _ two
    exact ⟨n + m, inside_trans _ _ _ n m inside later⟩
  fails s errorStart message comment after ran := by
    rw [bind_run] at ran
    cases one : action s with
    | ok a between =>
        rw [one] at ran
        obtain ⟨n, inside⟩ := first.ok _ _ _ one
        exact fails_later _ _ _ n _ inside ((second a).fails _ _ _ _ _ ran)
    | error stop between =>
        rw [one] at ran
        cases ran
        exact first.fails _ _ _ _ _ one

instance takes_ite (condition : Prop) [Decidable condition] (first second : Parse α)
    [yes : Takes first] [no : Takes second] : Takes (if condition then first else second) := by
  split
  · exact yes
  · exact no

theorem takes_if_asked (asked : Tokens → Bool) (action : Parse Bool)
    (runs : ∀ s, action s = if asked s then .ok true s.advance else .ok false s)
    (wanted : ∀ s, asked s = true → s.next.type ∉ refused) : Takes action where
  ok s value after ran := by
    rw [runs] at ran
    split at ran
    · next yes =>
        cases ran
        exact ⟨1, .advance 0 s .here (wanted s yes)⟩
    · cases ran
      exact ⟨0, .here⟩
  fails s errorStart message comment after ran := by
    rw [runs] at ran
    split at ran <;> cases ran

theorem takes_match (expected : TokenType) (wanted : expected ∉ refused) :
    Takes (match_ expected) := by
  apply takes_if_asked (fun s => s.next.type == expected)
  · intro s
    rw [match_run]
    simp only [beq_iff_eq]
  · intro s same
    rw [beq_iff_eq.mp same]
    exact wanted

theorem takes_match_from_to (start stop : TokenType)
    (wanted : ∀ type ∈ refused, type.fromTo start stop = false) :
    Takes (matchFromTo start stop) := by
  apply takes_if_asked (fun s => s.next.type.fromTo start stop)
  · intro s
    have bound := match_from_to_bind start stop pure s
    rwa [bind_pure] at bound
  · intro s inside member
    rw [wanted _ member] at inside
    cases inside

instance takes_match_number : Takes matchNumber := by
  have number := takes_match .number (by decide)
  unfold matchNumber
  infer_instance

instance takes_paren_num : Takes parenNum := by
  unfold parenNum
  dsimp only
  repeat' first
    | with_reducible refine @takes_bind _ _ _ _ ?_ (fun _ => ?_)
    | with_reducible refine @takes_ite _ _ _ _ _ ?_ ?_
    | exact takes_match _ (by decide)
    | exact takes_match_from_to _ _ (by decide)
    | infer_instance

instance takes_bracket_num : Takes bracketNum := by
  unfold bracketNum
  dsimp only
  repeat' first
    | with_reducible refine @takes_bind _ _ _ _ ?_ (fun _ => ?_)
    | with_reducible refine @takes_ite _ _ _ _ _ ?_ ?_
    | exact takes_match _ (by decide)
    | exact takes_match_from_to _ _ (by decide)
    | infer_instance

instance takes_return_line : Takes returnLine := by
  unfold returnLine
  dsimp only
  repeat' first
    | with_reducible refine @takes_bind _ _ _ _ ?_ (fun _ => ?_)
    | with_reducible refine @takes_ite _ _ _ _ _ ?_ ?_
    | exact takes_match _ (by decide)
    | exact takes_match_from_to _ _ (by decide)
    | infer_instance

instance takes_label : Takes label := by
  unfold label
  dsimp only
  repeat' first
    | with_reducible refine @takes_bind _ _ _ _ ?_ (fun _ => ?_)
    | with_reducible refine @takes_ite _ _ _ _ _ ?_ ?_
    | exact takes_match _ (by decide)
    | exact takes_match_from_to _ _ (by decide)
    | infer_instance

def Outcome (s : Tokens) : EStateM.Result ParseStop Tokens α → Prop
  | .ok _ after => ∃ taken, s.Inside taken after
  | .error (.raised errorStart _ _) after => s.Fails errorStart after
  | .error (.exit _) _ => True

theorem inside_one (s : Tokens) (taken : s.next.type ∉ refused) : s.Inside 1 s.advance :=
  .advance 0 s .here taken

theorem arch_wanted (type : TokenType) (arch : type.fromTo .archX86 .archSh = true) :
    type ∉ refused := by
  revert arch
  cases type <;> decide

theorem fails_here (s : Tokens) : s.Fails s.next.start (s.sync s.syncFuel) :=
  ⟨0, s, .here, rfl, Or.inl rfl⟩

theorem fails_at_first (s : Tokens) (taken : s.next.type ∉ refused) :
    s.Fails s.next.start (s.advance.sync s.advance.syncFuel) :=
  ⟨1, s.advance, inside_one s taken, rfl, Or.inr (Or.inl ⟨Nat.le_refl 1, rfl⟩)⟩

theorem compare_obj_outcome (lib : Libseccomp) (localArch : Word) (s : Tokens) :
    Outcome s (compareObj lib localArch s) := by
  unfold compareObj
  simp only [get_bind, match_from_to_bind, match_bind, match_number_bind, ite_run,
    error_next_bind, error_current_bind, error_at_bind, pure_run, peek_bind, advance_bind, if_true,
    Bool.false_eq_true, if_false, Bool.not_true, Bool.not_false]
  split
  · next x => exact ⟨1, inside_one s (by rw [x]; decide)⟩
  · split
    · next number => exact ⟨1, inside_one s (by rw [number]; decide)⟩
    · split
      · exact fails_here s
      · split
        · next named =>
            have taken : s.next.type ∉ refused := by rw [named]; decide
            split
            · exact fails_at_first s taken
            · exact ⟨1, inside_one s taken⟩
        · split
          · next arch =>
              have taken := arch_wanted _ arch
              have one := inside_one s taken
              split
              · next dot =>
                  have two := one.advance 1 s.advance (by rw [dot]; decide)
                  split
                  · exact ⟨2, s.advance.advance, two, rfl, Or.inl rfl⟩
                  · next named =>
                      split
                      · exact ⟨2, s.advance.advance, two, rfl, Or.inr (Or.inr ⟨Nat.le_refl 2, rfl⟩)⟩
                      · split
                        · exact ⟨2, s.advance.advance, two, rfl, Or.inl rfl⟩
                        · have identifier : s.advance.advance.next.type = .identifier := by
                            simpa using named
                          exact ⟨3, two.advance 2 _ (by rw [identifier]; decide)⟩
              · split
                · exact fails_at_first s taken
                · exact ⟨1, one⟩
          · exact fails_here s

instance takes_compare_obj (lib : Libseccomp) (localArch : Word) :
    Takes (compareObj lib localArch) where
  ok s value after ran := by
    have outcome := compare_obj_outcome lib localArch s
    rw [ran] at outcome
    exact outcome
  fails s errorStart message comment after ran := by
    have outcome := compare_obj_outcome lib localArch s
    rw [ran] at outcome
    exact outcome

instance takes_condition (lib : Libseccomp) (localArch : Word) :
    Takes (condition lib localArch) := by
  unfold condition
  dsimp only
  repeat' first
    | with_reducible refine @takes_bind _ _ _ _ ?_ (fun _ => ?_)
    | with_reducible refine @takes_ite _ _ _ _ _ ?_ ?_
    | exact takes_match _ (by decide)
    | exact takes_match_from_to _ _ (by decide)
    | infer_instance

instance takes_ja_line : Takes jaLine := by
  unfold jaLine
  repeat' first
    | with_reducible refine @takes_bind _ _ _ _ ?_ (fun _ => ?_)
    | with_reducible refine @takes_ite _ _ _ _ _ ?_ ?_
    | exact takes_match _ (by decide)
    | exact takes_match_from_to _ _ (by decide)
    | infer_instance

instance takes_jump_line (lib : Libseccomp) (localArch : Word) :
    Takes (jumpLine lib localArch) := by
  unfold jumpLine
  dsimp only
  repeat' first
    | with_reducible refine @takes_bind _ _ _ _ ?_ (fun _ => ?_)
    | with_reducible refine @takes_ite _ _ _ _ _ ?_ ?_
    | exact takes_match _ (by decide)
    | exact takes_match_from_to _ _ (by decide)
    | infer_instance

instance takes_left : Takes left := by
  unfold left
  dsimp only
  repeat' first
    | with_reducible refine @takes_bind _ _ _ _ ?_ (fun _ => ?_)
    | with_reducible refine @takes_ite _ _ _ _ _ ?_ ?_
    | exact takes_match _ (by decide)
    | exact takes_match_from_to _ _ (by decide)
    | infer_instance

instance takes_right : Takes right := by
  unfold right
  dsimp only
  repeat' first
    | with_reducible refine @takes_bind _ _ _ _ ?_ (fun _ => ?_)
    | with_reducible refine @takes_ite _ _ _ _ _ ?_ ?_
    | exact takes_match _ (by decide)
    | exact takes_match_from_to _ _ (by decide)
    | infer_instance

instance takes_operator : Takes operator := by
  unfold operator
  dsimp only
  repeat' first
    | with_reducible refine @takes_bind _ _ _ _ ?_ (fun _ => ?_)
    | with_reducible refine @takes_ite _ _ _ _ _ ?_ ?_
    | exact takes_match _ (by decide)
    | exact takes_match_from_to _ _ (by decide)
    | infer_instance

instance takes_assign_line : Takes assignLine := by
  unfold assignLine
  repeat' first
    | with_reducible refine @takes_bind _ _ _ _ ?_ (fun _ => ?_)
    | with_reducible refine @takes_ite _ _ _ _ _ ?_ ?_
    | exact takes_match _ (by decide)
    | exact takes_match_from_to _ _ (by decide)
    | infer_instance

instance takes_line (lib : Libseccomp) (localArch : Word) (codeNr : Nat) :
    Takes (line lib localArch codeNr) := by
  unfold line
  repeat' first
    | with_reducible refine @takes_bind _ _ _ _ ?_ (fun _ => ?_)
    | with_reducible refine @takes_ite _ _ _ _ _ ?_ ?_
    | exact takes_match _ (by decide)
    | exact takes_match_from_to _ _ (by decide)
    | infer_instance

instance takes_skip_columns (left : Nat) : Takes (skipColumns left) := by
  induction left with
  | zero =>
      unfold skipColumns
      infer_instance
  | succ left ih =>
      unfold skipColumns
      infer_instance

end Parser

/-- The token a line ends at: its line break, which is consumed, or the end of the input. -/
def Tokens.EndsAt (tokens after : Tokens) : Prop :=
  (tokens.next.type = .eol ∧ after = tokens.advance) ∨
    (tokens.next.type = .tokenEof ∧ after = tokens)

def pastComment (tokens : Tokens) : Tokens :=
  if tokens.next.type = .comment then tokens.advance else tokens

/-- How the tokens of a line were used up. Behind a comment there is the end of the line, but
for states in which the scanner is not the one that the tokens come from. -/
inductive LineTaken (s : Tokens) (statement : Statement) (after : Tokens) : Prop where
  | whole (taken : Nat) (last : Tokens) (inside : s.Inside taken last)
      (ends : (pastComment last).EndsAt after)
      (length : statement.lineLen =
        (statement.lineStart.length - (pastComment last).next.start.length) % 2 ^ 16)
      (proper : ∀ error, statement.line ≠ .error error)
      (eof : statement.line = .eof → last.next.type = .tokenEof)
  | failed (errorStart : Text) (message : Message)
      (line : statement.line = .error { errorStart, errorMsg := message })
      (fails : s.Fails errorStart after)
      (length : statement.lineLen =
        (statement.lineStart.length - after.current.start.length) % 2 ^ 16)
  | behind (taken : Nat) (last : Tokens) (inside : s.Inside taken last) (message : Message)
      (comment : last.next.type = .comment)
      (more : last.advance.next.type ∉ [.eol, .tokenEof])
      (line : statement.line = .error { errorStart := last.advance.next.start, errorMsg := message })
      (skipped : after = last.advance.sync last.advance.syncFuel)

theorem line_taken_later (s middle : Tokens) (taken : Nat) (statement : Statement) (after : Tokens)
    (first : s.Inside taken middle) (later : LineTaken middle statement after) :
    LineTaken s statement after := by
  cases later with
  | whole more last inside ends length proper eof =>
      exact .whole (taken + more) last (inside_trans _ _ _ taken more first inside) ends length proper
        eof
  | failed errorStart message line fails length =>
      exact .failed errorStart message line (fails_later _ _ _ taken _ first fails) length
  | behind behind last inside message comment more line skipped =>
      exact .behind (taken + behind) last (inside_trans _ _ _ taken behind first inside) message
        comment more line skipped

namespace Parser

theorem line_end_takes (s : Tokens) (ending : Token) (after : Tokens)
    (comment : Option Nat) (ran : lineEnd comment s = .ok ending after) : ending = s.next ∧ s.EndsAt after := by
  rw [line_end_run] at ran
  split at ran
  · next eol =>
      cases ran
      exact ⟨rfl, Or.inl ⟨eol, rfl⟩⟩
  · split at ran
    · next eof =>
        cases ran
        exact ⟨rfl, Or.inr ⟨eof, rfl⟩⟩
    · cases ran

theorem line_end_fails (s : Tokens) (errorStart : Text) (message : Message) (after : Tokens)
    (comment held : Option Nat)
    (ran : lineEnd comment s = .error (.raised errorStart message held) after) :
    errorStart = s.next.start ∧ s.next.type ∉ [.eol, .tokenEof] ∧ after = s.sync s.syncFuel := by
  rw [line_end_run] at ran
  split at ran
  · cases ran
  · next notEol =>
      split at ran
      · cases ran
      · next notEof =>
          cases ran
          exact ⟨rfl, by simp [notEol, notEof], rfl⟩

def commentAt (local_ : Statement) (between : Tokens) : Option Nat :=
  if between.next.type = .comment then
    some (local_.lineStart.length - between.next.start.length)
  else none

def ended (local_ : Statement) (line : Line) (between : Tokens) (ending : Token) : Statement :=
  { local_ with
    line
    comment := commentAt local_ between
    lineLen := (local_.lineStart.length - ending.start.length) % 2 ^ 16 }

theorem expression_run (lib : Libseccomp) (localArch : Word) (local_ : Statement) (s : Tokens) :
    (∃ stop after, line lib localArch local_.codeNr s = .error stop after ∧
      expression lib localArch local_ s = .error stop after) ∨
    ∃ got between, line lib localArch local_.codeNr s = .ok got between ∧
      ((∃ stop after, lineEnd (commentAt local_ between) (pastComment between) = .error stop after ∧
          expression lib localArch local_ s = .error stop after) ∨
        ∃ ending after, lineEnd (commentAt local_ between) (pastComment between) = .ok ending after ∧
          expression lib localArch local_ s = .ok (ended local_ got between ending) after) := by
  unfold expression
  rw [bind_run]
  cases line lib localArch local_.codeNr s with
  | error stop after => exact Or.inl ⟨stop, after, rfl, rfl⟩
  | ok got between =>
      refine Or.inr ⟨got, between, rfl, ?_⟩
      simp only [match_bind, ite_run, get_bind, pure_bind, if_true, Bool.false_eq_true, if_false]
      unfold pastComment ended commentAt
      by_cases commented : between.next.type = .comment
      · have sharp : between.advance.current = between.next := rfl
        simp only [if_pos commented, bind_run, sharp]
        cases lineEnd _ between.advance with
        | error stop after => exact Or.inl ⟨stop, after, rfl, rfl⟩
        | ok ending after => exact Or.inr ⟨ending, after, rfl, rfl⟩
      · simp only [if_neg commented, bind_run]
        cases lineEnd none between with
        | error stop after => exact Or.inl ⟨stop, after, rfl, rfl⟩
        | ok ending after => exact Or.inr ⟨ending, after, rfl, rfl⟩

theorem line_eof (lib : Libseccomp) (localArch : Word) (codeNr : Nat) (s between : Tokens)
    (ran : line lib localArch codeNr s = .ok .eof between) :
    between = s ∧ s.next.type = .tokenEof := by
  rw [line_run] at ran
  split at ran
  · cases ran
  · split at ran
    · next eof =>
        cases ran
        exact ⟨rfl, eof⟩
    · split at ran
      · cases ran
      · split at ran
        · exact (return_line_shaped _ _ _ ran).elim
        · split at ran
          · exact (jump_line_shaped lib localArch _ _ _ ran).elim
          · split at ran
            · exact (ja_line_shaped s _ _ ran).elim
            · split at ran
              · next target =>
                  exact (assign_line_shaped _ ((assignable_range _).mp target) _ _ ran).elim
              · cases ran

theorem line_no_error (lib : Libseccomp) (localArch : Word) (codeNr : Nat) (s : Tokens)
    (got : Line) (between : Tokens) (ran : line lib localArch codeNr s = .ok got between)
    (error : ErrorLine) : got ≠ .error error := by
  rintro rfl
  rcases line_shaped lib localArch codeNr s _ _ ran with empty | eof | ⟨shaped, _⟩
  · cases empty
  · cases eof
  · exact shaped

end Parser

theorem expression_taken (lib : Libseccomp) (localArch : Word) (local_ statement : Statement)
    (s after : Tokens)
    (ran : runLine (Parser.expression lib localArch local_) local_ s = .ok (statement, after)) :
    LineTaken s statement after := by
  unfold runLine at ran
  rcases Parser.expression_run lib localArch local_ s with
    ⟨stop, last, failed, same⟩ | ⟨got, between, done, rest⟩
  · rw [same] at ran
    cases stop with
    | exit message => cases ran
    | raised errorStart message comment =>
        cases ran
        exact .failed errorStart message rfl (Parser.Takes.fails _ _ _ _ _ failed) rfl
  · obtain ⟨n, inside⟩ := Parser.Takes.ok _ _ _ done
    rcases rest with ⟨stop, last, failed, same⟩ | ⟨ending, last, finished, same⟩
    · rw [same] at ran
      cases stop with
      | exit message => cases ran
      | raised errorStart message comment =>
          cases ran
          obtain ⟨start, more, skipped⟩ := Parser.line_end_fails _ _ _ _ _ _ failed
          by_cases commented : between.next.type = .comment
          · rw [pastComment, if_pos commented] at start more skipped
            exact .behind n between inside message commented more (by rw [← start]; rfl) skipped
          · rw [pastComment, if_neg commented] at start skipped
            exact .failed errorStart message rfl
              ⟨n, between, inside, skipped, Or.inl start⟩ rfl
    · rw [same] at ran
      cases ran
      obtain ⟨ending_, ends⟩ := Parser.line_end_takes _ _ _ _ finished
      refine .whole n between inside ends (by rw [ending_]; rfl)
        (Parser.line_no_error lib localArch _ s got between done) ?_
      intro eof
      cases (show got = .eof from eof)
      exact (Parser.line_eof lib localArch _ _ _ done).1 ▸
        (Parser.line_eof lib localArch _ _ _ done).2

theorem labelled_taken (lib : Libseccomp) (localArch : Word) (local_ statement : Statement)
    (s after : Tokens)
    (ran : runLine (do Parser.skipColumns 4; Parser.expression lib localArch local_) local_ s =
      .ok (statement, after)) :
    LineTaken s statement after := by
  unfold runLine at ran
  rw [Parser.bind_run] at ran
  cases skipped : Parser.skipColumns 4 s with
  | error stop last =>
      rw [skipped] at ran
      cases stop with
      | exit message => cases ran
      | raised errorStart message comment =>
          cases ran
          exact .failed errorStart message rfl (Parser.Takes.fails _ _ _ _ _ skipped) rfl
  | ok skippedAll between =>
      rw [skipped] at ran
      obtain ⟨n, inside⟩ := Parser.Takes.ok _ _ _ skipped
      exact line_taken_later s between n statement after inside
        (expression_taken lib localArch local_ statement between after ran)

theorem parse_line_taken (lib : Libseccomp) (localArch : Word) (state : ParseState)
    (statement : Statement) (next : ParseState)
    (parsed : parseLine lib localArch state = .ok (statement, next)) :
    LineTaken state.tokens statement next.tokens := by
  unfold parseLine at parsed
  dsimp only at parsed
  split at parsed
  · next declares =>
      have label : state.tokens.Inside 1 state.tokens.advance :=
        Parser.inside_one state.tokens (by rw [declares]; decide)
      split at parsed
      · obtain ⟨tokens, ran, rfl⟩ := finished _ _ _ _ _ _ parsed
        cases ran
        exact .failed _ .duplicatedLabel rfl
          ⟨1, state.tokens.advance, label, rfl, Or.inr (Or.inl ⟨Nat.le_refl 1, rfl⟩)⟩ rfl
      · obtain ⟨tokens, ran, rfl⟩ := finished _ _ _ _ _ _ parsed
        exact line_taken_later _ _ 1 _ _ label (labelled_taken lib localArch _ _ _ _ ran)
  · obtain ⟨tokens, ran, rfl⟩ := finished _ _ _ _ _ _ parsed
    exact expression_taken lib localArch _ _ _ _ ran

theorem expression_start (lib : Libseccomp) (localArch : Word) (local_ : Statement) :
    Parser.Yields (Parser.expression lib localArch local_)
      fun statement => statement.lineStart = local_.lineStart := by
  intro s statement after ran
  rcases Parser.expression_run lib localArch local_ s with
    ⟨stop, last, _, same⟩ | ⟨got, between, _, ⟨stop, last, _, same⟩ | ⟨ending, last, _, same⟩⟩
  · rw [same] at ran
    cases ran
  · rw [same] at ran
    cases ran
  · rw [same] at ran
    cases ran
    rfl

theorem run_line_start (action : Parse Statement) (local_ statement : Statement) (s after : Tokens)
    (keeps : Parser.Yields action fun statement => statement.lineStart = local_.lineStart)
    (ran : runLine action local_ s = .ok (statement, after)) :
    statement.lineStart = local_.lineStart := by
  unfold runLine at ran
  split at ran
  · next done =>
      cases ran
      exact keeps _ _ _ done
  · cases ran
    rfl
  · cases ran

theorem parse_line_start (lib : Libseccomp) (localArch : Word) (state : ParseState)
    (statement : Statement) (next : ParseState)
    (parsed : parseLine lib localArch state = .ok (statement, next)) :
    statement.lineStart = state.tokens.next.start := by
  unfold parseLine at parsed
  dsimp only at parsed
  split at parsed
  · split at parsed
    · obtain ⟨tokens, ran, rfl⟩ := finished _ _ _ _ _ _ parsed
      cases ran
      rfl
    · obtain ⟨tokens, ran, rfl⟩ := finished _ _ _ _ _ _ parsed
      apply run_line_start _ _ _ _ _ _ ran
      intro s value after ran
      obtain ⟨_, s1, _, ran⟩ := (Parser.bind_ok ..).mp ran
      exact expression_start lib localArch _ _ _ _ ran
  · obtain ⟨tokens, ran, rfl⟩ := finished _ _ _ _ _ _ parsed
    exact run_line_start _ _ _ _ _ (expression_start lib localArch _) ran

/-- The lines that the loop of `parser` goes through, one after the other. -/
inductive ParseRun (lib : Libseccomp) (localArch : Word) :
    ParseState → List Statement → ParseState → Prop where
  | stop (state : ParseState) (statement : Statement) (last : ParseState)
      (parsed : parseLine lib localArch state = .ok (statement, last))
      (eof : statement.line = .eof) : ParseRun lib localArch state [] last
  | line (state : ParseState) (statement : Statement) (next : ParseState) (later : List Statement)
      (last : ParseState) (parsed : parseLine lib localArch state = .ok (statement, next))
      (more : statement.line ≠ .eof) (rest : ParseRun lib localArch next later last) :
      ParseRun lib localArch state (statement :: later) last

theorem parse_lines_run (lib : Libseccomp) (localArch : Word) (fuel : Nat) (state : ParseState)
    (text : List Statement) (last : ParseState)
    (parsed : parseLines lib localArch fuel state = some (.ok (text, last))) :
    ParseRun lib localArch state text last := by
  induction fuel generalizing state text with
  | zero => cases parsed
  | succ fuel ih =>
      unfold parseLines at parsed
      split at parsed
      · cases parsed
      · next statement next line =>
          split at parsed
          · next eof =>
              cases parsed
              exact .stop state statement _ line eof
          · next more =>
              obtain ⟨done, loop, same⟩ := Option.map_eq_some_iff.mp parsed
              cases done with
              | error message => cases same
              | ok both =>
                  cases same
                  exact .line state statement next _ _ line more (ih next _ loop)

/-- Before the first line. -/
def initParse (lines : List Text) : ParseState :=
  { textNr := 0, codeNr := 0, tokens := initParser (initScanner lines), table := [] }

theorem parser_run (lib : Libseccomp) (localArch : Word) (lines : List Text) (parsed : Parsed)
    (parses : parser lib localArch lines = some (.ok parsed)) :
    ∃ last, ParseRun lib localArch (initParse lines) parsed.text last ∧
      parsed.table = last.table := by
  obtain ⟨done, loop, same⟩ := Option.map_eq_some_iff.mp parses
  cases done with
  | error message => cases same
  | ok both =>
      cases same
      exact ⟨both.2, parse_lines_run lib localArch _ _ _ _ loop, rfl⟩

end Ceccomp
