import Ceccomp.Text.Exits
import Ceccomp.Text.Lines
import Mathlib.Data.Finset.Card

/-!
An error stays on its line: the parser makes one statement of each line of the source, and
but for its numbers the one it makes of the line alone.
-/

namespace Ceccomp

/-- The next token is the first one of these lines, which the scanner had in front of it. -/
structure Tokens.AtLines (tokens : Tokens) (before : Scanner) (lines : List Text) : Prop where
  next : tokens.next = (scanToken before).1
  scanner : tokens.scanner = (scanToken before).2
  rest : before.rest = lines.head?
  lines : before.lines = lines.tail

/-- There are at most so many unknown characters ahead that the scanner goes on. -/
def Scanner.Calm (scanner : Scanner) : Prop := ∀ n, (scanner.after n).unknownCount ≤ 5

theorem calm_after (scanner : Scanner) (calm : scanner.Calm) (n : Nat) : (scanner.after n).Calm := by
  induction n with
  | zero => exact calm
  | succ n ih =>
      intro m
      have next : ((scanner.after n).after (m + 1)).unknownCount ≤ 5 := ih (m + 1)
      rwa [after_succ] at next

theorem scan_line_end (scanner : Scanner) (eol : (scanToken scanner).1.type = .eol) :
    (scanToken scanner).2.rest = scanner.lines.head? ∧
      (scanToken scanner).2.lines = scanner.lines.tail ∧
      (scanToken scanner).2.unknownCount = scanner.unknownCount := by
  cases scan_token_step scanner with
  | lineEnd rest here type moved =>
      rw [moved]
      exact ⟨rfl, rfl, rfl⟩
  | ended done type same =>
      rw [type] at eol
      cases eol
  | taken rest len here type positive more moved =>
      rw [eol] at type
      exact absurd (by decide) type
  | unknown rest here type few more moved =>
      rw [type] at eol
      cases eol
  | gaveUp rest here type many more noComment foreign moved =>
      rw [type] at eol
      cases eol

theorem scan_inside (scanner : Scanner)
    (inside : (scanToken scanner).1.type ∉ [.eol, .tokenEof]) :
    (∃ rest, (scanToken scanner).2.rest = some rest) ∧
      (scanToken scanner).2.lines = scanner.lines := by
  cases scan_token_step scanner with
  | lineEnd rest here type moved => exact absurd (by simp [type]) inside
  | ended done type same => exact absurd (by simp [type]) inside
  | gaveUp rest here type many more noComment foreign moved => exact absurd (by simp [type]) inside
  | taken rest len here type positive more moved =>
      rw [moved]
      exact ⟨⟨_, rfl⟩, rfl⟩
  | unknown rest here type few more moved =>
      rw [moved]
      exact ⟨⟨_, rfl⟩, rfl⟩

theorem line_stays (before : Scanner) (line : Text) (n : Nat) (here : before.rest = some line)
    (inside : ∀ i < n, (before.token i).type ∉ [.eol, .tokenEof]) :
    (∃ rest, (before.after n).rest = some rest) ∧ (before.after n).lines = before.lines := by
  induction n with
  | zero => exact ⟨⟨line, here⟩, rfl⟩
  | succ n ih =>
      obtain ⟨_, same⟩ := ih fun i below => inside i (Nat.lt_succ_of_lt below)
      obtain ⟨rest, kept⟩ := scan_inside _ (inside n (Nat.lt_succ_self n))
      exact ⟨rest, kept.trans same⟩

theorem calm_finishes (before : Scanner) (calm : before.Calm) (line : Text)
    (here : before.rest = some line) : before.Finishes := by
  intro n inside eof
  obtain ⟨⟨rest, some_⟩, _⟩ := line_stays before line n here inside
  have type : (scanToken (before.after n)).1.type = .tokenEof := eof
  cases scan_token_step (before.after n) with
  | lineEnd rest here eol moved =>
      rw [eol] at type
      cases type
  | ended done type same =>
      rw [some_] at done
      cases done
  | taken rest len here proper positive more moved =>
      rw [type] at proper
      exact absurd (by decide) proper
  | unknown rest here unknown few more moved =>
      rw [unknown] at type
      cases type
  | gaveUp rest here type many more noComment foreign moved =>
      exact absurd (calm n) (Nat.not_le.mpr many)

theorem same_line_finishes (scanner other : Scanner) (same : scanner.SameLine other) :
    other.Finishes := by
  intro n inside
  have along : (scanner.after n).SameLine (other.after n) := by
    induction n with
    | zero => exact same
    | succ n ih =>
        have earlier := ih fun i below => inside i (Nat.lt_succ_of_lt below)
        obtain ⟨alike, _, rest⟩ := scan_alike _ _ earlier
        apply rest
        intro eol
        apply inside n (Nat.lt_succ_self n)
        have type : (other.token n).type = .eol := alike.type.trans eol
        simp [type]
  obtain ⟨alike, goes, _⟩ := scan_alike _ _ along
  have type : (other.token n).type = ((scanToken (scanner.after n)).1).type := alike.type
  rw [type]
  exact goes

theorem skipped_ends (s : Tokens) (count : Nat)
    (before : ∀ i < count, (s.ahead i).next.type ∉ [.eol, .tokenEof]) :
    ∃ n, count ≤ n ∧ (s.ahead n).EndsAt ((s.ahead count).sync (s.ahead count).syncFuel) ∧
      ∀ i < n, (s.ahead i).next.type ∉ [.eol, .tokenEof] := by
  obtain ⟨n, ends, skipped⟩ := sync_stops _ _ (sync_fuel_enough (s.ahead count))
  refine ⟨count + n, Nat.le_add_right _ _, ?_, fun i below => ?_⟩
  · rw [ahead_add]
    exact ends
  · by_cases early : i < count
    · exact before i early
    · obtain ⟨k, rfl⟩ := Nat.exists_eq_add_of_le (Nat.le_of_not_lt early)
      rw [ahead_add]
      exact skipped k (Nat.lt_of_add_lt_add_left below)

theorem refused_inside (type : TokenType) (known : type ∉ refused ∨ type = .comment) :
    type ∉ [TokenType.eol, .tokenEof] := by
  revert known
  cases type <;> decide

theorem line_taken_ends (s : Tokens) (statement : Statement) (after : Tokens)
    (taken : LineTaken s statement after) :
    ∃ n, (s.ahead n).EndsAt after ∧ ∀ i < n, (s.ahead i).next.type ∉ [.eol, .tokenEof] := by
  cases taken with
  | whole count last inside ends length proper eof =>
      obtain ⟨n, _, _, ended, before⟩ := whole_line_ahead s last after count inside ends
      exact ⟨n, ended, fun i below => refused_inside _ (before i below)⟩
  | failed errorStart message line fails length =>
      obtain ⟨count, failed, inside, rfl, _⟩ := fails.skipped
      obtain ⟨rfl, before⟩ := inside_ahead s failed count inside
      obtain ⟨n, _, ends, skipped⟩ := skipped_ends s count fun i below =>
        refused_inside _ (Or.inl (before i below))
      exact ⟨n, ends, skipped⟩
  | behind count last inside message comment more line skipped =>
      obtain ⟨rfl, before⟩ := inside_ahead s last count inside
      obtain ⟨n, _, ends, skipped'⟩ := skipped_ends s (count + 1) fun i below => by
        apply refused_inside
        rcases Nat.lt_succ_iff_lt_or_eq.mp below with earlier | rfl
        · exact Or.inl (before i earlier)
        · exact Or.inr comment
      exact ⟨n, skipped ▸ ends, skipped'⟩

theorem at_next_line (before : Scanner) (tokens after : Tokens) (line : Text) (rest : List Text)
    (statement : Statement) (at_ : tokens.AtLines before (line :: rest))
    (taken : LineTaken tokens statement after) :
    (before.Finishes ∧ ∃ n, after.AtLines (before.after n) rest) ∨
      (¬ before.Finishes ∧ after.next.type = .tokenEof) := by
  have seen := ahead_scanned before tokens at_.next at_.scanner
  obtain ⟨n, ends, inside⟩ := line_taken_ends _ _ _ taken
  have within (i : Nat) (below : i < n) : (before.token i).type ∉ [.eol, .tokenEof] := by
    rw [← (seen i).1]
    exact inside i below
  rcases ends with ⟨eol, rfl⟩ | ⟨eof, rfl⟩
  · obtain ⟨_, same⟩ := line_stays before line n at_.rest within
    rw [(seen n).1] at eol
    obtain ⟨first, others, _⟩ := scan_line_end _ eol
    rw [same, at_.lines] at first others
    refine Or.inl ⟨fun m early eof => ?_, n + 1, (seen (n + 1)).1, (seen (n + 1)).2, first, others⟩
    rcases Nat.lt_trichotomy m n with below | rfl | past
    · exact within m below (by simp [eof])
    · have other : (before.token m).type = .eol := eol
      rw [other] at eof
      cases eof
    · have other : (before.token n).type = .eol := eol
      exact early n past (by simp [other])
  · refine Or.inr ⟨fun finishes => ?_, eof⟩
    rw [(seen n).1] at eof
    exact finishes n within eof

theorem line_not_eof (before : Scanner) (finishes : before.Finishes) (tokens after : Tokens)
    (statement : Statement) (next : tokens.next = (scanToken before).1)
    (scanner : tokens.scanner = (scanToken before).2)
    (taken : LineTaken tokens statement after) : statement.line ≠ .eof := by
  intro eof
  cases taken with
  | failed errorStart message line fails length =>
      rw [eof] at line
      cases line
  | behind count last taken message comment more line skipped =>
      rw [eof] at line
      cases line
  | whole count last taken ends length proper end_ =>
      have seen := ahead_scanned before tokens next scanner
      obtain ⟨rfl, early⟩ := inside_ahead tokens last count taken
      apply finishes count _ ((seen count).1 ▸ end_ eof)
      intro i below
      rw [← (seen i).1]
      exact refused_inside _ (Or.inl (early i below))

theorem at_lines_over (before : Scanner) (tokens : Tokens) (at_ : tokens.AtLines before []) :
    tokens.next.type = .tokenEof := by
  rw [at_.next]
  unfold scanToken
  rw [at_.rest]
  rfl

theorem parse_line_over (lib : Libseccomp) (localArch : Word) (state : ParseState)
    (eof : state.tokens.next.type = .tokenEof) :
    ∃ statement next, parseLine lib localArch state = .ok (statement, next) ∧
      statement.line = .eof ∧ next.table = state.table := by
  obtain ⟨textNr, codeNr, tokens, table⟩ := state
  dsimp only at eof
  have ran (local_ : Statement) : ∃ statement,
      runLine (Parser.expression lib localArch local_) local_ tokens = .ok (statement, tokens) := by
    unfold runLine
    rw [Parser.expression_eq, Parser.line_run, eof]
    simp only [reduceCtorEq, or_self, if_false, if_true]
    rw [pastComment, if_neg (by rw [eof]; decide), Parser.line_end_run, eof]
    exact ⟨_, rfl⟩
  have plain : tokens.next.type ≠ .labelDecl := by
    rw [eof]
    decide
  obtain ⟨statement, same⟩ := ran _
  have parsed := parse_line_plain lib localArch textNr codeNr tokens table plain
  rw [same] at parsed
  exact ⟨statement, _, parsed, parse_line_eof lib localArch _ _ _ eof parsed, rfl⟩

def ParsedAlone (lib : Libseccomp) (localArch : Word) (line : Text) (statement : Statement) : Prop :=
  ∃ table, parser lib localArch [line] = some (.ok { text := [statement], table })

theorem parsed_alone (lib : Libseccomp) (localArch : Word) (line : Text) (alone : Statement)
    (last : ParseState) (parsed : parseLine lib localArch (initParse [line]) = .ok (alone, last))
    (more : alone.line ≠ .eof) : ParsedAlone lib localArch line alone := by
  have over_ : last.tokens.next.type = .tokenEof := by
    rcases at_next_line (initScanner [line]) _ _ line [] alone ⟨rfl, rfl, rfl, rfl⟩
      (parse_line_taken lib localArch _ _ _ parsed) with ⟨_, n, passed⟩ | ⟨_, eof⟩
    · exact at_lines_over _ _ passed
    · exact eof
  obtain ⟨statement, next, ended, eof, _⟩ := parse_line_over lib localArch last over_
  refine ⟨next.table, ?_⟩
  change (parseLines lib localArch 3 (initParse [line])).map _ = _
  simp only [parseLines, parsed, if_neg more, ended, eof, if_true, Option.map_some, Except.map]

section Overflow

/-- Up to where the scanner gives up, the same tokens are in front of both. -/
def Tokens.Follows (tokens other : Tokens) : Prop :=
  tokens.next.type ≠ .tokenEof → tokens.next.Alike other.next ∧
    (tokens.next.type ≠ .eol → tokens.scanner.SameRest other.scanner)

theorem follows_advance (tokens other : Tokens) (follows : tokens.Follows other)
    (goes : tokens.next.type ≠ .tokenEof) (more : tokens.next.type ≠ .eol) :
    tokens.advance.Follows other.advance :=
  scan_same_rest _ _ ((follows goes).2 more)

theorem number_follows (tokens other behind : Tokens) (later : Parse Unit)
    (follows : tokens.Follows other)
    (ran : (Parser.matchNumber >>= fun found => if found then later else pure ()) tokens =
      .ok () behind)
    (goes : behind.next.type ≠ .tokenEof)
    (rest : ∀ s t : Tokens, s.Follows t → later s = .ok () behind →
      ∃ last, later t = .ok () last ∧ behind.Follows last) :
    ∃ last, (Parser.matchNumber >>= fun found => if found then later else pure ()) other =
      .ok () last ∧ behind.Follows last := by
  rw [Parser.match_number_bind] at ran ⊢
  by_cases number : tokens.next.type = .number
  · rw [if_pos number] at ran
    have alike := (follows (by simp [number])).1
    rw [if_pos (alike.type.trans number)]
    exact rest _ _ (follows_advance _ _ follows (by simp [number]) (by simp [number])) ran
  · rw [if_neg number] at ran
    by_cases overflow : tokens.next.type = .overflowNumber
    · rw [if_pos overflow] at ran
      cases ran
    · rw [if_neg overflow] at ran
      cases ran
      have alike := (follows goes).1
      rw [if_neg (by rwa [alike.type]), if_neg (by rwa [alike.type])]
      exact ⟨_, rfl, follows⟩

theorem skip_columns_follows (left : Nat) (tokens other behind : Tokens)
    (follows : tokens.Follows other)
    (columns : Parser.skipColumns left tokens = .ok () behind)
    (goes : behind.next.type ≠ .tokenEof) :
    ∃ last, Parser.skipColumns left other = .ok () last ∧ behind.Follows last := by
  induction left generalizing tokens other with
  | zero =>
      have same : Parser.skipColumns 0 =
          Parser.matchNumber >>= fun found => if found then pure () else pure () := by
        simp only [Parser.skipColumns, ite_self]
      rw [same] at columns ⊢
      apply number_follows _ _ _ _ follows columns goes
      intro s t both done
      cases done
      exact ⟨t, rfl, both⟩
  | succ left ih => exact number_follows _ _ _ _ follows columns goes ih

theorem statement_follows (tokens other s : Tokens) (follows : tokens.Follows other)
    (begins : tokens.Statement s) (goes : s.next.type ≠ .tokenEof) :
    ∃ t, other.Statement t ∧ s.Follows t := by
  cases begins with
  | plain noLabel =>
      have alike := (follows goes).1
      exact ⟨other, .plain (by rwa [alike.type]), follows⟩
  | labelled _ label columns =>
      have alike := (follows (by simp [label])).1
      obtain ⟨t, same, behind⟩ := skip_columns_follows 4 _ _ _
        (follows_advance _ _ follows (by simp [label]) (by simp [label])) columns goes
      exact ⟨t, .labelled t (alike.type.trans label) same, behind⟩

variable (lib : Libseccomp) (localArch : Word)

theorem expression_filled (lib : Libseccomp) (localArch : Word) (local_ statement : Statement)
    (s after : Tokens) (some_ : s.next.type ∉ [.eol, .comment, .tokenEof])
    (ran : runLine (Parser.expression lib localArch local_) local_ s = .ok (statement, after)) :
    statement.line ≠ .empty ∧ statement.line ≠ .eof := by
  rw [← not_or]
  intro blank
  unfold runLine at ran
  rw [Parser.expression_eq] at ran
  cases found : Parser.line lib localArch local_.codeNr s with
  | error stop last =>
      rw [found] at ran
      cases stop with
      | exit message => cases ran
      | raised errorStart message comment =>
          cases ran
          rcases blank with none_ | none_ <;> cases none_
  | ok got between =>
      rw [found] at ran
      dsimp only at ran
      cases finish : Parser.lineEnd (Parser.commentAt local_ between) (pastComment between) with
      | error stop last =>
          rw [finish] at ran
          cases stop with
          | exit message => cases ran
          | raised errorStart message comment =>
              cases ran
              rcases blank with none_ | none_ <;> cases none_
      | ok ending last =>
          rw [finish] at ran
          cases ran
          exact some_ (Parser.line_blank lib localArch _ s between got found blank)

theorem statement_filled (state next : ParseState) (statement : Statement) (s : Tokens)
    (ran : parseLine lib localArch state = .ok (statement, next))
    (begins : state.tokens.Statement s) (some_ : s.next.type ∉ [.eol, .comment, .tokenEof]) :
    statement.line ≠ .empty ∧ statement.line ≠ .eof := by
  obtain ⟨textNr, codeNr, tokens, table⟩ := state
  cases begins with
  | plain noLabel =>
      rw [parse_line_plain lib localArch textNr codeNr tokens table noLabel] at ran
      cases done : runLine _ _ tokens with
      | error message =>
          rw [done] at ran
          cases ran
      | ok both =>
          rw [done] at ran
          cases ran
          exact expression_filled lib localArch _ _ _ _ some_ done
  | labelled _ label columns =>
      obtain ⟨duplicate, added, inserted⟩ : ∃ duplicate added,
        insertKey table (labelKey tokens) ((codeNr + 1) % 2 ^ 16) = (duplicate, added) := ⟨_, _, rfl⟩
      rw [parse_line_labelled lib localArch textNr codeNr tokens table _ _ label inserted] at ran
      cases duplicate with
      | true =>
          cases ran
          exact ⟨nofun, nofun⟩
      | false =>
          rw [if_neg (by decide)] at ran
          have same : runLine
              (do
                Parser.skipColumns 4
                Parser.expression lib localArch (labelled textNr codeNr tokens))
              (labelled textNr codeNr tokens) tokens.advance =
                runLine (Parser.expression lib localArch (labelled textNr codeNr tokens))
                  (labelled textNr codeNr tokens) s := by
            unfold runLine
            rw [Parser.bind_run, columns]
          rw [same] at ran
          cases done : runLine _ (labelled textNr codeNr tokens) s with
          | error message =>
              rw [done] at ran
              cases ran
          | ok both =>
              rw [done] at ran
              cases ran
              exact expression_filled lib localArch _ _ _ _ some_ done

/-- The line on which the parser ends the program holds a statement when it is alone, too. -/
theorem overflow_holds (state : ParseState) (before : Scanner) (line : Text) (rest : List Text)
    (at_ : state.tokens.AtLines before (line :: rest)) (message : Message)
    (ran : parseLine lib localArch state = .error message) :
    message = .statementOverflow ∧ bpfMaxInsns < state.codeNr + 1 ∧
      ∃ alone, ParsedAlone lib localArch line alone ∧ alone.line ≠ .empty := by
  obtain ⟨s, begins, exits⟩ := parse_line_exit lib localArch state message ran
  refine ⟨exits.overflow, Nat.lt_of_lt_of_le exits.many (Nat.mod_le _ _), ?_⟩
  have goes : s.next.type ≠ .tokenEof := by
    have some_ := exits.some_
    simp only [List.mem_cons, List.not_mem_nil, or_false, not_or] at some_
    exact some_.2.2
  have same : before.SameRest (initScanner [line]) := ⟨⟨line, at_.rest, rfl⟩, Nat.zero_le _⟩
  have follows : state.tokens.Follows (initParse [line]).tokens := by
    intro more
    rw [at_.next] at more ⊢
    rw [at_.scanner]
    exact scan_same_rest before (initScanner [line]) same more
  obtain ⟨t, first, alike⟩ := statement_follows _ _ s follows begins goes
  have some_ : t.next.type ∉ [.eol, .comment, .tokenEof] := by
    rw [(alike goes).1.type]
    exact exits.some_
  cases parsed : parseLine lib localArch (initParse [line]) with
  | error message =>
      obtain ⟨_, _, exits⟩ := parse_line_exit lib localArch _ message parsed
      have one : (initParse [line]).codeNr = 0 := rfl
      rw [one] at exits
      exact absurd exits.many (by decide)
  | ok both =>
      obtain ⟨filled, more⟩ := statement_filled lib localArch _ both.2 both.1 t parsed first some_
      exact ⟨both.1, parsed_alone lib localArch line both.1 both.2 parsed more, filled⟩

end Overflow

/-- The line alone holds a statement, or a label that was declared already. -/
def Counts (lib : Libseccomp) (localArch : Word) (declared : Text → Prop) (line : Text) : Prop :=
  ∃ alone, ParsedAlone lib localArch line alone ∧
    (alone.line ≠ .empty ∨ ∃ key, alone.labelDecl = some key ∧ declared key)

def Declares (lib : Libseccomp) (localArch : Word) (line key : Text) : Prop :=
  ∃ alone, ParsedAlone lib localArch line alone ∧ alone.labelDecl = some key

/-- The statement of a line is the one of the line alone but for its numbers, or the error
that its label was declared on a line before. -/
def LineLocal (lib : Libseccomp) (localArch : Word) (declared : Text → Prop) (line : Text)
    (statement : Statement) : Prop :=
  ∃ alone, ParsedAlone lib localArch line alone ∧
    (statement = alone.numbered statement.textNr statement.codeNr ∨
      ∃ key, DeclaredTwice statement alone key ∧ declared key)

theorem line_local_weaken (lib : Libseccomp) (localArch : Word) (declared known : Text → Prop)
    (line : Text) (statement : Statement) (some_ : ∀ key, declared key → known key)
    (local_ : LineLocal lib localArch declared line statement) :
    LineLocal lib localArch known line statement := by
  obtain ⟨alone, parsed, same | ⟨key, twice, before⟩⟩ := local_
  · exact ⟨alone, parsed, Or.inl same⟩
  · exact ⟨alone, parsed, Or.inr ⟨key, twice, some_ key before⟩⟩

theorem line_local_step (lib : Libseccomp) (localArch : Word) (state : ParseState)
    (before : Scanner) (finishes : before.Finishes) (line : Text) (rest : List Text)
    (at_ : state.tokens.AtLines before (line :: rest)) :
    (∃ message, parseLine lib localArch state = .error message) ∨
      ∃ statement next, parseLine lib localArch state = .ok (statement, next) ∧
        statement.line ≠ .eof ∧ (∃ n, next.tokens.AtLines (before.after n) rest) ∧
        LineLocal lib localArch (fun key => ∃ nr, (key, nr) ∈ state.table) line statement ∧
        (next.codeNr ≤ state.codeNr ∨ (next.codeNr ≤ state.codeNr + 1 ∧
          Counts lib localArch (fun key => ∃ nr, (key, nr) ∈ state.table) line)) ∧
        ∀ key nr, (key, nr) ∈ next.table → (key, nr) ∈ state.table ∨
          (statement.labelDecl = some key ∧ Declares lib localArch line key) := by
  have same : before.SameLine (initScanner [line]) :=
    { rest := ⟨line, at_.rest, rfl⟩, fewer := Nat.zero_le _, finishes }
  obtain ⟨alike, goes, later⟩ := scan_alike _ _ same
  have begins : state.tokens.Begins (initParse [line]).tokens :=
    { next := at_.next ▸ alike
      more := at_.next ▸ goes
      rest := fun inside => at_.scanner ▸ later (at_.next ▸ inside) }
  obtain ⟨alone, last, ran, outcome⟩ := parse_line_alone lib localArch state _ begins
  have notEof := line_not_eof _ (same_line_finishes _ _ same) _ _ alone rfl rfl
    (parse_line_taken lib localArch _ _ _ ran)
  have parsed := parsed_alone lib localArch line alone last ran notEof
  rcases outcome with exits | ⟨statement, next, ok, same⟩
  · exact Or.inl ⟨_, exits⟩
  · have taken := parse_line_taken lib localArch state statement next ok
    have more := line_not_eof before finishes _ _ statement at_.next at_.scanner taken
    have passed := ((at_next_line before _ _ line rest statement at_ taken).resolve_right
      fun gaveUp => gaveUp.1 finishes).2
    have step := parse_line_step lib localArch state statement next ok
    refine Or.inr ⟨statement, next, ok, more, passed, ⟨alone, parsed, same⟩, ?_, ?_⟩
    -- the number grows only with a statement or an error line
    · have number := step.nextCode
      by_cases empty : statement.line = .empty
      · rw [if_pos empty] at number
        exact Or.inl (number ▸ Nat.mod_le _ _)
      · rw [if_neg empty] at number
        refine Or.inr ⟨number ▸ Nat.mod_le _ _, alone, parsed, ?_⟩
        rcases same with numbered | ⟨key, twice, known⟩
        · rw [numbered] at empty
          exact Or.inl empty
        · exact Or.inr ⟨key, twice.label, known⟩
    -- a label that was added is one the line alone declares
    · have declares (key : Text) (own : statement.labelDecl = some key) :
          statement.labelDecl = some key ∧ Declares lib localArch line key := by
        refine ⟨own, alone, parsed, ?_⟩
        rcases same with numbered | ⟨other, twice, _⟩
        · rw [numbered] at own
          exact own
        · rw [twice.again] at own
          rw [twice.label, own]
      intro key nr member
      rcases step.labels with ⟨_, kept⟩ | ⟨own, declared, ⟨_, _, kept⟩ | ⟨_, added⟩⟩
      · exact Or.inl (kept ▸ member)
      · exact Or.inl (kept ▸ member)
      · rw [added, List.mem_append, List.mem_singleton] at member
        rcases member with old | new
        · exact Or.inl old
        · cases new
          exact Or.inr (declares key declared)

/-- A label that a statement before the one with that index declares. -/
def DeclaredBefore (text : List Statement) (i : Nat) (key : Text) : Prop :=
  ∃ j < i, ∃ other, text[j]? = some other ∧ other.labelDecl = some key

section Count

variable (lib : Libseccomp) (localArch : Word) (lines : List Text)

/-- The line with that index, alone, holds a statement or a label that one before it declares. -/
def HoldsStatement (i : Nat) : Prop :=
  ∃ line, lines[i]? = some line ∧
    Counts lib localArch
      (fun key => ∃ j < i, ∃ other, lines[j]? = some other ∧ Declares lib localArch other key) line

/-- More lines hold a statement than the program may have instructions. -/
def TooMany : Prop :=
  ∃ chosen : Finset Nat, bpfMaxInsns < chosen.card ∧
    ∀ i ∈ chosen, HoldsStatement lib localArch lines i

/-- Behind the first lines: the labels are theirs, and as many of them hold statements as
the parser has counted. -/
structure Counted (done : Nat) (state : ParseState) : Prop where
  labels : ∀ key nr, (key, nr) ∈ state.table →
    ∃ j < done, ∃ other, lines[j]? = some other ∧ Declares lib localArch other key
  count : ∃ chosen : Finset Nat, state.codeNr ≤ chosen.card ∧
    ∀ i ∈ chosen, i < done ∧ HoldsStatement lib localArch lines i

variable {lib localArch lines}

theorem counts_weaken (declared known : Text → Prop) (line : Text)
    (some_ : ∀ key, declared key → known key) (counts : Counts lib localArch declared line) :
    Counts lib localArch known line := by
  obtain ⟨alone, parsed, filled | ⟨key, label, before⟩⟩ := counts
  · exact ⟨alone, parsed, Or.inl filled⟩
  · exact ⟨alone, parsed, Or.inr ⟨key, label, some_ key before⟩⟩

theorem counted_one_more (chosen : Finset Nat) (done : Nat) (line : Text)
    (before : ∀ i ∈ chosen, i < done ∧ HoldsStatement lib localArch lines i)
    (here : lines[done]? = some line)
    (counts : Counts lib localArch
      (fun key => ∃ j < done, ∃ other, lines[j]? = some other ∧ Declares lib localArch other key)
      line) :
    ∃ more : Finset Nat, more.card = chosen.card + 1 ∧
      ∀ i ∈ more, i < done + 1 ∧ HoldsStatement lib localArch lines i := by
  have fresh : done ∉ chosen := fun member => Nat.lt_irrefl done (before done member).1
  refine ⟨insert done chosen, Finset.card_insert_of_notMem fresh, fun i member => ?_⟩
  rcases Finset.mem_insert.mp member with rfl | earlier
  · exact ⟨Nat.lt_succ_self i, line, here, counts⟩
  · exact ⟨Nat.lt_succ_of_lt (before i earlier).1, (before i earlier).2⟩

theorem counted_overflow (done : Nat) (state : ParseState) (line : Text)
    (counted : Counted lib localArch lines done state) (here : lines[done]? = some line)
    (many : bpfMaxInsns < state.codeNr + 1)
    (holds : ∃ alone, ParsedAlone lib localArch line alone ∧ alone.line ≠ .empty) :
    TooMany lib localArch lines := by
  obtain ⟨chosen, enough, each⟩ := counted.count
  obtain ⟨alone, parsed, filled⟩ := holds
  obtain ⟨more, card, all⟩ := counted_one_more chosen done line each here
    ⟨alone, parsed, Or.inl filled⟩
  refine ⟨more, ?_, fun i member => (all i member).2⟩
  rw [card]
  exact Nat.lt_of_lt_of_le many (Nat.succ_le_succ enough)

theorem counted_next (done : Nat) (state next : ParseState) (line : Text)
    (counted : Counted lib localArch lines done state) (here : lines[done]? = some line)
    (count : next.codeNr ≤ state.codeNr ∨ (next.codeNr ≤ state.codeNr + 1 ∧
      Counts lib localArch (fun key => ∃ nr, (key, nr) ∈ state.table) line))
    (labels : ∀ key nr, (key, nr) ∈ next.table →
      (key, nr) ∈ state.table ∨ Declares lib localArch line key) :
    Counted lib localArch lines (done + 1) next := by
  constructor
  · intro key nr member
    rcases labels key nr member with old | new
    · obtain ⟨j, before, declared⟩ := counted.labels key nr old
      exact ⟨j, Nat.lt_succ_of_lt before, declared⟩
    · exact ⟨done, Nat.lt_succ_self done, line, here, new⟩
  · obtain ⟨chosen, enough, each⟩ := counted.count
    rcases count with same | ⟨one, counts⟩
    · refine ⟨chosen, Nat.le_trans same enough, fun i member => ?_⟩
      exact ⟨Nat.lt_succ_of_lt (each i member).1, (each i member).2⟩
    · obtain ⟨more, card, all⟩ := counted_one_more chosen done line each here
        (counts_weaken _ _ line (fun key ⟨nr, known⟩ => counted.labels key nr known) counts)
      refine ⟨more, ?_, all⟩
      rw [card]
      exact Nat.le_trans one (Nat.succ_le_succ enough)

end Count

/-- The loop of `parser` goes through the lines one by one, until the scanner gives up. -/
theorem lines_local (lib : Libseccomp) (localArch : Word) (whole : List Text) (done : Nat)
    (lines : List Text) (fuel : Nat) (state : ParseState) (before : Scanner)
    (behind : whole.drop done = lines) (at_ : state.tokens.AtLines before lines)
    (counted : Counted lib localArch whole done state) (enough : lines.length < fuel) :
    (parseLines lib localArch fuel state = some (.error .statementOverflow) ∧
        TooMany lib localArch whole) ∨
      ∃ text last, parseLines lib localArch fuel state = some (.ok (text, last)) ∧
        (before.Calm → text.length = lines.length ∧
          ∀ (i : Nat) line statement, lines[i]? = some line → text[i]? = some statement →
            LineLocal lib localArch
              (fun key => (∃ nr, (key, nr) ∈ state.table) ∨ DeclaredBefore text i key)
              line statement) := by
  -- on the lines to come; `Counted` carries how many statements the lines before can account for
  induction lines generalizing done fuel state before with
  | nil =>
      cases fuel with
      | zero => exact absurd enough (Nat.lt_irrefl 0)
      | succ fuel =>
          obtain ⟨statement, next, parsed, eof, _⟩ := parse_line_over lib localArch state
            (at_lines_over _ _ at_)
          refine Or.inr ⟨[], next, ?_, fun _ => ⟨rfl, fun i line statement here => by cases here⟩⟩
          simp only [parseLines, parsed, eof, if_true]
  | cons line rest ih =>
      have here : whole[done]? = some line := by
        rw [← List.head?_drop, behind]
        rfl
      have later : whole.drop (done + 1) = rest := by
        rw [← List.drop_drop, behind]
        rfl
      cases fuel with
      | zero => exact absurd enough (Nat.not_lt_zero _)
      | succ fuel =>
          cases ran : parseLine lib localArch state with
          | error message =>
              obtain ⟨rfl, many, holds⟩ := overflow_holds lib localArch state before line rest at_ _ ran
              refine Or.inl ⟨?_, counted_overflow done state line counted here many holds⟩
              simp only [parseLines, ran]
          | ok both =>
              obtain ⟨statement, next⟩ := both
              by_cases finishes : before.Finishes
              · rcases line_local_step lib localArch state before finishes line rest at_ with
                  ⟨message, exits⟩ | ⟨_, _, ok, more, ⟨n, passed⟩, local_, count, labels⟩
                · rw [ran] at exits
                  cases exits
                · rw [ran] at ok
                  cases ok
                  have known := counted_next done state next line counted here count
                    fun key nr member => (labels key nr member).imp_right And.right
                  rcases ih (done + 1) fuel next _ later passed known
                      (Nat.lt_of_succ_lt_succ enough) with
                    ⟨exits, many⟩ | ⟨text, last, loop, rest_⟩
                  · refine Or.inl ⟨?_, many⟩
                    simp only [parseLines, ran, more, if_false, exits, Option.map_some, Except.map]
                  · refine Or.inr ⟨statement :: text, last, ?_, fun calm => ?_⟩
                    · simp only [parseLines, ran, more, if_false, loop, Option.map_some, Except.map]
                    · obtain ⟨length, follow⟩ := rest_ (calm_after before calm n)
                      refine ⟨by rw [List.length_cons, List.length_cons, length], ?_⟩
                      -- a label the next lines know was in the table before, or this line declared it
                      intro i other found place there
                      cases i with
                      | zero =>
                          cases place
                          cases there
                          exact line_local_weaken _ _ _ _ _ _ (fun key known => Or.inl known) local_
                      | succ i =>
                          apply line_local_weaken _ _ _ _ _ _ _ (follow i other found place there)
                          rintro key (⟨nr, known⟩ | ⟨j, before, earlier, place, declares⟩)
                          · rcases labels key nr known with old | ⟨declares, _⟩
                            · exact Or.inl ⟨nr, old⟩
                            · exact Or.inr ⟨0, Nat.zero_lt_succ i, statement, rfl, declares⟩
                          · exact Or.inr ⟨j + 1, Nat.succ_lt_succ before, earlier, place, declares⟩
              · have noCalm : ¬ before.Calm := fun calm =>
                  finishes (calm_finishes before calm line at_.rest)
                obtain ⟨_, eof⟩ := (at_next_line before _ _ line rest statement at_
                  (parse_line_taken lib localArch state statement next ran)).resolve_left
                    fun passed => finishes passed.1
                by_cases over_ : statement.line = .eof
                · refine Or.inr ⟨[], next, ?_, fun calm => absurd calm noCalm⟩
                  simp only [parseLines, ran, over_, if_true]
                · -- behind the line on which the scanner gives up there is no other one
                  cases fuel with
                  | zero => exact absurd enough (Nat.not_lt.mpr (Nat.succ_le_succ (Nat.zero_le _)))
                  | succ fuel =>
                      obtain ⟨other, last, parsed, ended, _⟩ :=
                        parse_line_over lib localArch next eof
                      refine Or.inr ⟨[statement], last, ?_, fun calm => absurd calm noCalm⟩
                      simp only [parseLines, ran, over_, parsed, ended, if_true, if_false,
                        Option.map_some, Except.map]

/-- The UNKNOWN tokens among the first ones. -/
def Scanner.unknowns (scanner : Scanner) (n : Nat) : Nat :=
  ((List.range n).filter fun i => (scanner.token i).type = .unknown).length

theorem unknowns_counted (scanner : Scanner) (n : Nat) :
    (scanner.after n).unknownCount = scanner.unknownCount + scanner.unknowns n := by
  induction n with
  | zero => rfl
  | succ n ih =>
      have step := unknown_counted (scanner.after n)
      change (scanToken (scanner.after n)).2.unknownCount = _
      rw [step, ih, Scanner.unknowns, Scanner.unknowns, List.range_succ, List.filter_append,
        List.length_append, Nat.add_assoc]
      congr 2
      by_cases unknown : (scanner.token n).type = .unknown
      · have same : (scanToken (scanner.after n)).1.type = .unknown := unknown
        simp [unknown, same]
      · have other : (scanToken (scanner.after n)).1.type ≠ .unknown := unknown
        simp [unknown, other]

theorem few_unknown_calm (lines : List Text) (few : ∀ n, (initScanner lines).unknowns n ≤ 5) :
    (initScanner lines).Calm := by
  intro n
  rw [unknowns_counted]
  exact Nat.le_trans (Nat.le_of_eq (Nat.zero_add _)) (few n)

/-- Either the parser ends the program for a source with too many statements, or it returns, and
what it makes of a source without much garbage is known line by line. -/
theorem parser_local (lib : Libseccomp) (localArch : Word) (lines : List Text) :
    (parser lib localArch lines = some (.error .statementOverflow) ∧ TooMany lib localArch lines) ∨
      ∃ parsed, parser lib localArch lines = some (.ok parsed) ∧
        ((initScanner lines).Calm → parsed.text.length = lines.length ∧
          ∀ (i : Nat) line statement, lines[i]? = some line → parsed.text[i]? = some statement →
            LineLocal lib localArch (DeclaredBefore parsed.text i) line statement) := by
  have counted : Counted lib localArch lines 0 (initParse lines) :=
    { labels := fun key nr none_ => (by cases none_)
      count := ⟨∅, Nat.le_refl 0, fun i none_ => absurd none_ (Finset.notMem_empty i)⟩ }
  rcases lines_local lib localArch lines 0 lines (lines.length + 2) (initParse lines)
    (initScanner lines) rfl ⟨rfl, rfl, rfl, rfl⟩ counted (Nat.lt_add_of_pos_right Nat.two_pos) with
    ⟨exits, many⟩ | ⟨text, last, parses, follow⟩
  · refine Or.inl ⟨?_, many⟩
    change (parseLines lib localArch (lines.length + 2) (initParse lines)).map _ = _
    rw [exits]
    rfl
  · refine Or.inr ⟨{ text, table := last.table }, ?_, fun calm => ?_⟩
    · change (parseLines lib localArch (lines.length + 2) (initParse lines)).map _ = _
      rw [parses]
      rfl
    · obtain ⟨length, each⟩ := follow calm
      refine ⟨length, fun i line statement here there => ?_⟩
      apply line_local_weaken _ _ _ _ _ _ _ (each i line statement here there)
      rintro key (⟨nr, none_⟩ | before)
      · cases none_
      · exact before

/-- Recovery from errors is local to the line: on every source with at most five unknown
characters the parser makes one statement of each line, the one of the line alone but for its
numbers and labels declared twice, unless there are too many of them. -/
theorem error_recovery_local (lib : Libseccomp) (localArch : Word) (lines : List Text)
    (few : ∀ n, (initScanner lines).unknowns n ≤ 5) :
    (parser lib localArch lines = some (.error .statementOverflow) ∧ TooMany lib localArch lines) ∨
      ∃ parsed, parser lib localArch lines = some (.ok parsed) ∧
        parsed.text.length = lines.length ∧
        ∀ (i : Nat) line statement, lines[i]? = some line → parsed.text[i]? = some statement →
          LineLocal lib localArch (DeclaredBefore parsed.text i) line statement := by
  rcases parser_local lib localArch lines with exits | ⟨parsed, parses, follow⟩
  · exact Or.inl exits
  · exact Or.inr ⟨parsed, parses, follow (few_unknown_calm lines few)⟩

theorem unknowns_settled (lines : List Text) (m : Nat)
    (passed : ((initScanner lines).after m).rest = none)
    (few : ((initScanner lines).after m).unknownCount ≤ 5) (n : Nat) :
    (initScanner lines).unknowns n ≤ 5 := by
  have still (k : Nat) : (initScanner lines).after (m + k) = (initScanner lines).after m := by
    induction k with
    | zero => rfl
    | succ k ih =>
        change (scanToken ((initScanner lines).after (m + k))).2 = _
        rw [ih]
        unfold scanToken
        rw [passed]
  have more (k : Nat) : (initScanner lines).unknowns n ≤ (initScanner lines).unknowns (n + k) := by
    unfold Scanner.unknowns
    apply List.Sublist.length_le
    apply List.Sublist.filter
    rw [List.range_add]
    exact List.sublist_append_left _ _
  have counted := unknowns_counted (initScanner lines) (n + m)
  rw [Nat.add_comm n m, still n] at counted
  have bound := more m
  rw [Nat.add_comm n m] at bound
  have zero : (initScanner lines).unknownCount = 0 := rfl
  omega

deriving instance DecidableEq for Parsed

theorem error_recovery_local_goto :
    ∃ parsed, parser namelessLib archX8664 ["goto".toList, "return ALLOW".toList, "@".toList] =
      some (.ok parsed) ∧ parsed.text.length = 3 := by
  have few := unknowns_settled ["goto".toList, "return ALLOW".toList, "@".toList] 7
    (by decide +kernel) (by decide +kernel)
  rcases error_recovery_local namelessLib archX8664 _ few with
    ⟨exits, _⟩ | ⟨parsed, parses, length, _⟩
  · exact absurd exits (by decide +kernel)
  · exact ⟨parsed, parses, length⟩

/-- A line with a statement but without a label or an error. -/
structure ProperAlone (lib : Libseccomp) (localArch : Word) (line : Text) (alone : Statement) :
    Prop where
  parsed : ParsedAlone lib localArch line alone
  filled : alone.line ≠ .empty
  noLabel : alone.labelDecl = none

theorem proper_line (lib : Libseccomp) (localArch : Word) (declared : Text → Prop) (line : Text)
    (statement alone : Statement) (proper : ProperAlone lib localArch line alone)
    (local_ : LineLocal lib localArch declared line statement) : statement.line = alone.line := by
  obtain ⟨other, ⟨table, parses⟩, same⟩ := local_
  obtain ⟨own, known⟩ := proper.parsed
  rw [known] at parses
  cases parses
  rcases same with numbered | ⟨key, twice, _⟩
  · rw [numbered]
    rfl
  · have noLabel := proper.noLabel
    rw [twice.label] at noLabel
    cases noLabel

theorem overflow_exits (lib : Libseccomp) (localArch : Word) (lines : List Text)
    (calm : (initScanner lines).Calm)
    (each : ∀ line ∈ lines, ∃ alone, ProperAlone lib localArch line alone) (line : Text)
    (alone : Statement) (there : lines[bpfMaxInsns]? = some line)
    (proper : ProperAlone lib localArch line alone)
    (noError : ∀ error, alone.line ≠ .error error) :
    parser lib localArch lines = some (.error .statementOverflow) := by
  rcases parser_local lib localArch lines with ⟨exits, _⟩ | ⟨parsed, parses, follow⟩
  · exact exits
  · obtain ⟨length, follow⟩ := follow calm
    have text := parser_text lib localArch lines parsed parses
    have inside := (List.getElem?_eq_some_iff.mp there).1
    obtain ⟨statement, found⟩ : ∃ statement, parsed.text[bpfMaxInsns]? = some statement :=
      ⟨_, List.getElem?_eq_getElem (length ▸ inside)⟩
    have same := proper_line lib localArch _ line statement alone proper
      (follow bpfMaxInsns line statement there found)
    have filled : ∀ other ∈ parsed.text.take bpfMaxInsns, other.line ≠ .empty := by
      intro other member
      obtain ⟨i, place⟩ := List.mem_iff_getElem?.mp (List.mem_of_mem_take member)
      have low := (List.getElem?_eq_some_iff.mp place).1
      rw [length] at low
      obtain ⟨single, good⟩ := each lines[i] (List.getElem_mem low)
      rw [proper_line lib localArch _ _ other single good
        (follow i _ other (List.getElem?_eq_getElem low) place)]
      exact good.filled
    have count : countCode (parsed.text.take bpfMaxInsns) = bpfMaxInsns := by
      have all : codePtrs (parsed.text.take bpfMaxInsns) = parsed.text.take bpfMaxInsns := by
        apply List.filter_eq_self.mpr
        intro other member
        simp [filled other member]
      rw [countCode, all, List.length_take, length]
      exact Nat.min_eq_left (Nat.le_of_lt inside)
    have number := text.codeNr bpfMaxInsns statement found
    rw [count] at number
    rcases text.line statement (List.mem_of_getElem? found) with
      empty | ⟨error, failed⟩ | ⟨_, few⟩
    · exact absurd (same.symm.trans empty) proper.filled
    · exact absurd (same.symm.trans failed) (noError error)
    · rw [number] at few
      exact absurd few (by decide)

def returnAllow : Text := "return ALLOW".toList

def allowStatement : Statement :=
  { Statement.zero with
    line := .return_
      { retObj := { type := .allow, data := 0, literal := some "ALLOW".toList }
        realObj := .of .archX86 }
    textNr := 1, codeNr := 1, lineStart := returnAllow, comment := none, lineLen := 12 }

theorem return_allow_alone (lib : Libseccomp) (localArch : Word) :
    ProperAlone lib localArch returnAllow allowStatement where
  parsed := ⟨[], rfl⟩
  filled := nofun
  noLabel := rfl

/-- The scanner stands somewhere in a text of such lines. -/
structure OnAllow (count : Nat) (scanner : Scanner) : Prop where
  counted : scanner.unknownCount = count
  later : ∀ line ∈ scanner.lines, line = returnAllow
  rest : scanner.rest ∈ [none, some returnAllow, some " ALLOW".toList, some []]

theorem on_allow_next (count : Nat) (scanner : Scanner) (at_ : OnAllow count scanner) :
    OnAllow count (scanToken scanner).2 := by
  obtain ⟨rest, lines, lineNr, unknownCount⟩ := scanner
  obtain ⟨counted, later, rests⟩ := at_
  dsimp only at counted later rests
  simp only [List.mem_cons, List.not_mem_nil, or_false] at rests
  rcases rests with rfl | rfl | rfl | rfl
  · exact ⟨counted, later, List.mem_cons_self⟩
  · have step : (scanToken { rest := some returnAllow, lines, lineNr, unknownCount }).2 =
        { rest := some " ALLOW".toList, lines, lineNr, unknownCount } := rfl
    rw [step]
    exact ⟨counted, later, by simp⟩
  · have step : (scanToken { rest := some " ALLOW".toList, lines, lineNr, unknownCount }).2 =
        { rest := some [], lines, lineNr, unknownCount } := rfl
    rw [step]
    exact ⟨counted, later, by simp⟩
  · refine ⟨counted, fun line member => later line (List.mem_of_mem_tail member), ?_⟩
    cases lines with
    | nil => exact List.mem_cons_self
    | cons first others =>
        have same := later first List.mem_cons_self
        subst same
        simp [scanToken]

theorem on_allow_after (count : Nat) (scanner : Scanner) (at_ : OnAllow count scanner) (n : Nat) :
    OnAllow count (scanner.after n) := by
  induction n with
  | zero => exact at_
  | succ n ih => exact on_allow_next count _ ih

theorem returns_calm (n : Nat) : (initScanner (List.replicate n returnAllow)).Calm := by
  have at_ : OnAllow 0 (initScanner (List.replicate n returnAllow)) := by
    refine ⟨rfl, fun line member => List.eq_of_mem_replicate (List.mem_of_mem_tail member), ?_⟩
    cases n with
    | zero => exact List.mem_cons_self
    | succ n => simp [initScanner, List.replicate_succ]
  intro m
  rw [(on_allow_after 0 _ at_ m).counted]
  exact Nat.zero_le 5

theorem plain_allow : PlainLine returnAllow where
  short := by decide
  single := by decide
  noZero := by decide
  noEscape := by decide
  noReturn := by decide

theorem unix_file_length (n : Nat) :
    (unixFile (List.replicate n returnAllow)).length = 13 * n := by
  induction n with
  | zero => rfl
  | succ n ih =>
      have twelve : returnAllow.length = 12 := rfl
      rw [List.replicate_succ, unix_file_cons, List.length_append, List.length_cons, ih, twelve]
      omega

/-- Too many statements: the parser makes none of the lines a statement. -/
theorem many_returns_exit :
    sourceLines (unixFile (List.replicate 4097 returnAllow)) = .ok (List.replicate 4097 returnAllow) ∧
      (∀ n, (initScanner (List.replicate 4097 returnAllow)).unknowns n ≤ 5) ∧
      parser namelessLib archX8664 (List.replicate 4097 returnAllow) =
        some (.error .statementOverflow) := by
  have calm := returns_calm 4097
  refine ⟨?_, fun n => ?_, ?_⟩
  · apply plain_lines_read returnAllow (List.replicate 4096 returnAllow)
    · intro line member
      rw [List.eq_of_mem_replicate (n := 4097) member]
      exact plain_allow
    · rw [List.length_cons, List.length_replicate]
      decide
    · have length := unix_file_length 4097
      rw [List.replicate_succ] at length
      rw [length]
      decide
  · have counted := unknowns_counted (initScanner (List.replicate 4097 returnAllow)) n
    exact Nat.le_trans (Nat.le_of_eq ((Nat.zero_add _).symm.trans counted.symm)) (calm n)
  · apply overflow_exits namelessLib archX8664 _ calm _ returnAllow allowStatement _
      (return_allow_alone _ _) nofun
    · intro line member
      rw [List.eq_of_mem_replicate member]
      exact ⟨_, return_allow_alone _ _⟩
    · rw [List.getElem?_replicate]
      rfl

end Ceccomp
