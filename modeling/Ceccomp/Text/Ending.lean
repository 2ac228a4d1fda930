import Mathlib.Data.List.DropRight
import Ceccomp.Text.Labels

/-!
How scanning and parsing end: on every input, and never in silence when the scanner met
something it does not know.
-/

namespace Ceccomp

/-- The scanner behind so many tokens. -/
def Scanner.after (scanner : Scanner) : Nat → Scanner
  | 0 => scanner
  | n + 1 => (scanToken (scanner.after n)).2

theorem after_succ (scanner : Scanner) (n : Nat) :
    scanner.after (n + 1) = (scanToken scanner).2.after n := by
  induction n with
  | zero => rfl
  | succ n ih => exact congrArg (fun other => (scanToken other).2) ih

/-- The token with that number, counted from 0. -/
def Scanner.token (scanner : Scanner) (n : Nat) : Token := (scanToken (scanner.after n)).1

/-- The scanner ends the input although there is something left of it. -/
def Scanner.GivesUp (scanner : Scanner) : Prop :=
  (scanToken scanner).1.type = .tokenEof ∧ scanner.rest ≠ none

inductive ScanStep (scanner : Scanner) (token : Token) (next : Scanner) : Prop where
  | ended (done : scanner.rest = none) (type : token.type = .tokenEof) (same : next = scanner)
  | lineEnd (rest : Text) (here : scanner.rest = some rest) (type : token.type = .eol)
      (moved : next =
        { scanner with
          rest := scanner.lines.head?, lines := scanner.lines.tail, lineNr := scanner.lineNr + 1 })
  | taken (rest : Text) (len : Nat) (here : scanner.rest = some rest)
      (type : token.type ∉ [.eol, .tokenEof, .unknown]) (positive : 0 < len)
      (more : rest.dropWhile isSpace ≠ [])
      (moved : next = { scanner with rest := some ((rest.dropWhile isSpace).drop len) })
  | unknown (rest : Text) (here : scanner.rest = some rest) (type : token.type = .unknown)
      (few : scanner.unknownCount ≤ 5) (more : rest.dropWhile isSpace ≠ [])
      (moved : next =
        { scanner with
          rest := some ((rest.dropWhile isSpace).drop 1)
          unknownCount := scanner.unknownCount + 1 })
  | gaveUp (rest : Text) (here : scanner.rest = some rest) (type : token.type = .tokenEof)
      (many : 5 < scanner.unknownCount) (more : rest.dropWhile isSpace ≠ [])
      (noComment : peekAt (rest.dropWhile isSpace) 0 ≠ '#')
      (foreign : scanLexeme (rest.dropWhile isSpace) = none)
      (moved : next = { scanner with rest := some (rest.dropWhile isSpace) })

theorem scan_token_step (scanner : Scanner) :
    ScanStep scanner (scanToken scanner).1 (scanToken scanner).2 := by
  unfold scanToken
  cases here : scanner.rest with
  | none => exact .ended here rfl rfl
  | some rest =>
      dsimp only
      by_cases blank : rest.dropWhile isSpace = []
      · rw [if_pos blank]
        exact .lineEnd rest here rfl rfl
      · rw [if_neg blank]
        by_cases comment : peekAt (rest.dropWhile isSpace) 0 = '#'
        · rw [if_pos comment]
          refine .taken rest (rest.dropWhile isSpace).length here (by simp)
            (List.length_pos_iff.mpr blank) blank ?_
          rw [List.drop_length]
        · rw [if_neg comment]
          cases scanned : scanLexeme (rest.dropWhile isSpace) with
          | some lexeme =>
              obtain ⟨type, len, data⟩ := lexeme
              have positive := scan_lexeme_length _ blank type len data scanned
              have types := scan_lexeme_types _ type len data scanned
              refine .taken rest len here ?_ positive blank rfl
              simp only [markers, List.mem_cons, List.not_mem_nil, or_false, not_or] at types ⊢
              exact ⟨types.1, types.2.1, types.2.2.2⟩
          | none =>
              dsimp only
              by_cases many : scanner.unknownCount > 5
              · rw [if_pos many]
                exact .gaveUp rest here rfl many blank comment scanned rfl
              · rw [if_neg many]
                exact .unknown rest here rfl (Nat.le_of_not_lt many) blank rfl

theorem scan_token_moves (scanner : Scanner) :
    (scanToken scanner).1.type = .tokenEof ∨
    ((scanToken scanner).1.type = .eol ∧ (scanToken scanner).2.lineNr = scanner.lineNr + 1 ∧
      (scanToken scanner).2.lineEnds < scanner.lineEnds) ∨
    ((scanToken scanner).2.lineNr = scanner.lineNr ∧
      (scanToken scanner).2.lineEnds = scanner.lineEnds ∧
      (scanToken scanner).2.chars < scanner.chars) := by
  have progress := scan_token_progress scanner
  have shorter (rest : Text) (len : Nat) (positive : 0 < len)
      (more : rest.dropWhile isSpace ≠ []) :
      ((rest.dropWhile isSpace).drop len).length < rest.length := by
    have inside := (List.dropWhile_sublist isSpace (l := rest)).length_le
    have some_ := List.length_pos_iff.mpr more
    rw [List.length_drop]
    omega
  cases scan_token_step scanner with
  | ended done type same => exact Or.inl type
  | gaveUp rest here type many more noComment foreign moved => exact Or.inl type
  | lineEnd rest here type moved =>
      have ends := progress.1
      rw [type] at ends
      refine Or.inr (Or.inl ⟨type, by rw [moved], ?_⟩)
      simp only [isEol, if_true] at ends
      omega
  | taken rest len here type positive more moved =>
      refine Or.inr (Or.inr ?_)
      rw [moved]
      simp only [Scanner.lineEnds, Scanner.chars, here, Option.isSome_some, true_and]
      apply shorter rest len positive more
  | unknown rest here type few more moved =>
      refine Or.inr (Or.inr ?_)
      rw [moved]
      simp only [Scanner.lineEnds, Scanner.chars, here, Option.isSome_some, true_and]
      apply shorter rest 1 Nat.one_pos more

theorem drop_spaces_again (text : Text) :
    (text.dropWhile isSpace).dropWhile isSpace = text.dropWhile isSpace := by
  apply List.dropWhile_idempotent

theorem scan_eof_again (scanner : Scanner) (eof : (scanToken scanner).1.type = .tokenEof) :
    (scanToken (scanToken scanner).2).1.type = .tokenEof := by
  cases scan_token_step scanner with
  | ended done type same =>
      rw [same]
      exact type
  | lineEnd rest here type moved =>
      rw [type] at eof
      cases eof
  | taken rest len here type positive more moved =>
      rw [eof] at type
      exact absurd (by decide) type
  | unknown rest here type few more moved =>
      rw [type] at eof
      cases eof
  | gaveUp rest here type many more noComment foreign moved =>
      rw [moved]
      unfold scanToken
      dsimp only
      rw [drop_spaces_again, if_neg more, if_neg noComment, foreign]
      dsimp only
      rw [if_pos many]

theorem eof_for_good (scanner : Scanner) (n m : Nat) (order : n ≤ m)
    (eof : (scanner.token n).type = .tokenEof) : (scanner.token m).type = .tokenEof := by
  obtain ⟨k, rfl⟩ := Nat.exists_eq_add_of_le order
  clear order
  induction k with
  | zero => exact eof
  | succ k ih => exact scan_eof_again _ ih

theorem unknown_counted (scanner : Scanner) :
    (scanToken scanner).2.unknownCount =
      scanner.unknownCount + (if (scanToken scanner).1.type = .unknown then 1 else 0) := by
  cases scan_token_step scanner with
  | ended done type same => simp [type, same]
  | lineEnd rest here type moved => simp [type, moved]
  | taken rest len here type positive more moved =>
      simp only [List.mem_cons, List.not_mem_nil, or_false, not_or] at type
      simp [type.2.2, moved]
  | unknown rest here type few more moved => simp [type, moved]
  | gaveUp rest here type many more noComment foreign moved => simp [type, moved]

theorem gives_up_unknown (scanner : Scanner) (none_ : scanner.unknownCount = 0) (n : Nat)
    (known : ∀ i < n, (scanner.token i).type ≠ .unknown) : ¬ (scanner.after n).GivesUp := by
  have counted (m : Nat) (below : m ≤ n) : (scanner.after m).unknownCount = 0 := by
    induction m with
    | zero => exact none_
    | succ m ih =>
        have one := unknown_counted (scanner.after m)
        have other : (scanToken (scanner.after m)).1.type ≠ .unknown := known m below
        rw [if_neg other, ih (Nat.le_of_succ_le below)] at one
        exact one
  have zero := counted n (Nat.le_refl n)
  rintro ⟨eof, some_⟩
  cases scan_token_step (scanner.after n) with
  | ended done type same => exact some_ done
  | lineEnd rest here type moved =>
      rw [type] at eof
      cases eof
  | taken rest len here type positive more moved =>
      rw [eof] at type
      exact absurd (by decide) type
  | unknown rest here type few more moved =>
      rw [type] at eof
      cases eof
  | gaveUp rest here type many more noComment foreign moved => omega

/-- So many tokens further on. -/
def Tokens.ahead (tokens : Tokens) : Nat → Tokens
  | 0 => tokens
  | n + 1 => (tokens.ahead n).advance

theorem ahead_add (tokens : Tokens) (n m : Nat) : tokens.ahead (n + m) = (tokens.ahead n).ahead m := by
  induction m with
  | zero => rfl
  | succ m ih => exact congrArg Tokens.advance ih

theorem inside_ahead (start tokens : Tokens) (count : Nat) (inside : start.Inside count tokens) :
    tokens = start.ahead count ∧ ∀ i < count, (start.ahead i).next.type ∉ refused := by
  induction inside with
  | here => exact ⟨rfl, fun i below => absurd below (Nat.not_lt_zero i)⟩
  | advance count tokens early taken ih =>
      obtain ⟨same, before⟩ := ih
      refine ⟨congrArg Tokens.advance same, fun i below => ?_⟩
      rcases Nat.lt_succ_iff_lt_or_eq.mp below with earlier | rfl
      · exact before i earlier
      · rw [← same]
        exact taken

theorem ahead_scanned (before : Scanner) (tokens : Tokens)
    (next : tokens.next = (scanToken before).1) (scanner : tokens.scanner = (scanToken before).2)
    (n : Nat) :
    (tokens.ahead n).next = before.token n ∧ (tokens.ahead n).scanner = before.after (n + 1) := by
  induction n with
  | zero => exact ⟨next, scanner⟩
  | succ n ih =>
      have step : tokens.ahead (n + 1) = (tokens.ahead n).advance := rfl
      rw [step]
      unfold Tokens.advance
      rw [ih.2]
      exact ⟨rfl, rfl⟩

def garbage : List TokenType := [.unknown, .overflowNumber]

def Tokens.CleanTo (start tokens : Tokens) : Prop :=
  ∃ n, tokens = start.ahead n ∧ ∀ i < n, (start.ahead i).next.type ∉ garbage

theorem clean_trans (a b c : Tokens) (first : a.CleanTo b) (second : b.CleanTo c) : a.CleanTo c := by
  obtain ⟨n, rfl, before⟩ := first
  obtain ⟨m, rfl, behind⟩ := second
  refine ⟨n + m, (ahead_add a n m).symm, fun i below => ?_⟩
  by_cases early : i < n
  · exact before i early
  · obtain ⟨k, rfl⟩ := Nat.exists_eq_add_of_le (Nat.le_of_not_lt early)
    rw [ahead_add]
    apply behind k
    omega

theorem past_comment_ahead (tokens : Tokens) :
    ∃ n, pastComment tokens = tokens.ahead n ∧ ∀ i < n, (tokens.ahead i).next.type = .comment := by
  unfold pastComment
  by_cases comment : tokens.next.type = .comment
  · rw [if_pos comment]
    refine ⟨1, rfl, fun i below => ?_⟩
    rw [Nat.lt_one_iff.mp below]
    exact comment
  · rw [if_neg comment]
    exact ⟨0, rfl, fun i below => absurd below (Nat.not_lt_zero i)⟩

theorem whole_line_ahead (s last after : Tokens) (taken : Nat) (inside : s.Inside taken last)
    (ends : (pastComment last).EndsAt after) :
    ∃ n, taken ≤ n ∧ pastComment last = s.ahead n ∧ (s.ahead n).EndsAt after ∧
      ∀ i < n, (s.ahead i).next.type ∉ refused ∨ (s.ahead i).next.type = .comment := by
  obtain ⟨rfl, before⟩ := inside_ahead s last taken inside
  obtain ⟨n, behind, comment⟩ := past_comment_ahead (s.ahead taken)
  rw [behind, ← ahead_add] at ends
  refine ⟨taken + n, Nat.le_add_right _ _, by rw [behind, ahead_add], ends, fun i below => ?_⟩
  by_cases early : i < taken
  · exact Or.inl (before i early)
  · obtain ⟨k, rfl⟩ := Nat.exists_eq_add_of_le (Nat.le_of_not_lt early)
    rw [ahead_add]
    exact Or.inr (comment k (Nat.lt_of_add_lt_add_left below))

theorem whole_line_clean (s : Tokens) (statement : Statement) (after : Tokens)
    (taken : LineTaken s statement after) (proper : ∀ error, statement.line ≠ .error error) :
    s.CleanTo after ∧ (statement.line = .eof → after.next.type = .tokenEof) := by
  have known : ∀ type, (type ∉ refused ∨ type = .comment) → type ∉ garbage := by
    intro type
    cases type <;> decide
  cases taken with
  | failed errorStart message line fails length => exact absurd line (proper _)
  | behind count last inside message comment more line skipped => exact absurd line (proper _)
  | whole count last inside ends length _ eof =>
      obtain ⟨n, _, behind, ended, before⟩ := whole_line_ahead s last after count inside ends
      have clean : s.CleanTo (s.ahead n) := ⟨n, rfl, fun i below => known _ (before i below)⟩
      rcases ended with ⟨eol, rfl⟩ | ⟨end_, rfl⟩
      · refine ⟨⟨n + 1, rfl, fun i below => ?_⟩, fun isEof => ?_⟩
        · rcases Nat.lt_succ_iff_lt_or_eq.mp below with earlier | rfl
          · exact known _ (before i earlier)
          · rw [eol]
            decide
        · have type := eof isEof
          rw [← behind, pastComment, if_neg (by rw [type]; decide), type] at eol
          cases eol
      · exact ⟨clean, fun _ => end_⟩

theorem run_clean {lib : Libseccomp} {localArch : Word} {state last : ParseState}
    {text : List Statement} (run : ParseRun lib localArch state text last)
    (proper : ∀ statement ∈ text, ∀ error, statement.line ≠ .error error) :
    state.tokens.CleanTo last.tokens ∧ last.tokens.next.type = .tokenEof := by
  induction run with
  | stop state statement last parsed eof =>
      have taken := parse_line_taken lib localArch state statement last parsed
      obtain ⟨clean, ended⟩ := whole_line_clean _ _ _ taken (by simp [eof])
      exact ⟨clean, ended eof⟩
  | line state statement next later last parsed more rest ih =>
      rw [List.forall_mem_cons] at proper
      have taken := parse_line_taken lib localArch state statement next parsed
      obtain ⟨clean, _⟩ := whole_line_clean _ _ _ taken proper.1
      obtain ⟨behind, ended⟩ := ih proper.2
      exact ⟨clean_trans _ _ _ clean behind, ended⟩

/-- Something in the source is unknown to the scanner, or too large. -/
def Garbage (lines : List Text) : Prop :=
  ∃ n, ((initScanner lines).token n).type ∈ garbage ∨ ((initScanner lines).after n).GivesUp

theorem garbage_seen (lib : Libseccomp) (localArch : Word) (lines : List Text) (parsed : Parsed)
    (parses : parser lib localArch lines = some (.ok parsed)) (unknown : Garbage lines) :
    ∃ statement ∈ codePtrs parsed.text, ∃ error, statement.line = .error error := by
  obtain ⟨last, run, _⟩ := parser_run lib localArch lines parsed parses
  by_contra none_
  have proper : ∀ statement ∈ parsed.text, ∀ error, statement.line ≠ .error error := by
    intro statement member error line
    apply none_
    refine ⟨statement, ?_, error, line⟩
    simp [codePtrs, member, line]
  obtain ⟨⟨n, reached, clean⟩, eof⟩ := run_clean run proper
  have known (i : Nat) (below : i < n) : ((initScanner lines).token i).type ∉ garbage := by
    rw [← (ahead_scanned (initScanner lines) (initParser (initScanner lines)) rfl rfl i).1]
    exact clean i below
  have ended : ((initScanner lines).token n).type = .tokenEof := by
    rw [← (ahead_scanned (initScanner lines) (initParser (initScanner lines)) rfl rfl n).1]
    have same : last.tokens = (initParser (initScanner lines)).ahead n := reached
    rw [← same]
    exact eof
  have all (i : Nat) : ((initScanner lines).token i).type ∉ garbage := by
    by_cases below : i < n
    · exact known i below
    · rw [eof_for_good _ n i (Nat.le_of_not_lt below) ended]
      decide
  obtain ⟨i, bad | gaveUp⟩ := unknown
  · exact all i bad
  · apply gives_up_unknown (initScanner lines) rfl i _ gaveUp
    intro j _ same
    apply all j
    rw [same]
    decide

def Tokens.Scanned (tokens : Tokens) : Prop :=
  ∃ before, tokens.next = (scanToken before).1 ∧ tokens.scanner = (scanToken before).2

theorem scanned_pending (tokens : Tokens) (scanned : tokens.Scanned)
    (more : tokens.next.type ≠ .tokenEof) : 1 ≤ tokens.pending := by
  obtain ⟨before, next, scanner⟩ := scanned
  rw [next] at more
  unfold Tokens.pending Scanner.lineEnds
  rw [next, scanner]
  cases scan_token_step before with
  | ended done type same => exact absurd type more
  | gaveUp rest here type many some_ noComment foreign moved => exact absurd type more
  | lineEnd rest here type moved =>
      rw [type]
      simp [isEol]
  | taken rest len here type positive some_ moved =>
      rw [moved]
      simp
      omega
  | unknown rest here type few some_ moved =>
      rw [moved]
      simp
      omega

theorem scanned_ahead (tokens : Tokens) (scanned : tokens.Scanned) (n : Nat) :
    (tokens.ahead n).Scanned := by
  cases n with
  | zero => exact scanned
  | succ n => exact ⟨(tokens.ahead n).scanner, rfl, rfl⟩

theorem sync_ahead (fuel : Nat) (tokens : Tokens) : ∃ n, tokens.sync fuel = tokens.ahead n := by
  induction fuel generalizing tokens with
  | zero => exact ⟨0, rfl⟩
  | succ fuel ih =>
      unfold Tokens.sync
      split
      · exact ⟨1, rfl⟩
      · split
        · exact ⟨0, rfl⟩
        · obtain ⟨n, same⟩ := ih tokens.advance
          refine ⟨1 + n, ?_⟩
          rw [same, ahead_add]
          rfl

theorem line_taken_ahead (s : Tokens) (statement : Statement) (after : Tokens)
    (taken : LineTaken s statement after) : ∃ n, after = s.ahead n := by
  cases taken with
  | whole count last inside ends length proper eof =>
      obtain ⟨n, _, _, ⟨_, rfl⟩ | ⟨_, rfl⟩, _⟩ := whole_line_ahead s last after count inside ends
      · exact ⟨n + 1, rfl⟩
      · exact ⟨n, rfl⟩
  | behind count last inside message comment more line skipped =>
      obtain ⟨rfl, _⟩ := inside_ahead s last count inside
      obtain ⟨n, same⟩ := sync_ahead (s.ahead count).advance.syncFuel (s.ahead count).advance
      exact ⟨count + 1 + n, by rw [skipped, same, ahead_add s (count + 1)]; rfl⟩
  | failed errorStart message line fails length =>
      obtain ⟨count, failed, inside, rfl, _⟩ := fails.skipped
      obtain ⟨rfl, _⟩ := inside_ahead s failed count inside
      obtain ⟨n, same⟩ := sync_ahead (s.ahead count).syncFuel (s.ahead count)
      exact ⟨count + n, by rw [same, ahead_add]⟩

theorem parse_lines_ended (lib : Libseccomp) (localArch : Word) (state : ParseState)
    (eof : state.tokens.next.type = .tokenEof) :
    ∃ result, (∀ fuel, 1 ≤ fuel → parseLines lib localArch fuel state = some result) ∧
      ∀ text last, result = .ok (text, last) → text.length = 0 := by
  cases parsed : parseLine lib localArch state with
  | error message =>
      refine ⟨.error message, fun fuel enough => ?_, fun text last same => by cases same⟩
      obtain ⟨turns, rfl⟩ := Nat.exists_eq_add_of_le enough
      rw [Nat.add_comm]
      simp only [parseLines, parsed]
  | ok both =>
      obtain ⟨statement, next⟩ := both
      have last := parse_line_eof lib localArch state statement next eof parsed
      refine ⟨.ok ([], next), fun fuel enough => ?_, fun text last same => ?_⟩
      · obtain ⟨turns, rfl⟩ := Nat.exists_eq_add_of_le enough
        rw [Nat.add_comm]
        simp only [parseLines, parsed, last, if_true]
      · cases same
        rfl

/-- Two turns more than there are line ends are enough for the loop of `parser`, and
it makes at most one statement for each of them. -/
theorem parse_lines_total (lib : Libseccomp) (localArch : Word) (lineEnds : Nat)
    (state : ParseState) (scanned : state.tokens.Scanned)
    (ahead : state.tokens.pending ≤ lineEnds) :
    ∃ result, (∀ fuel, lineEnds + 2 ≤ fuel → parseLines lib localArch fuel state = some result) ∧
      ∀ text last, result = .ok (text, last) → text.length ≤ lineEnds := by
  induction lineEnds generalizing state with
  | zero =>
      by_cases eof : state.tokens.next.type = .tokenEof
      · obtain ⟨result, runs, none_⟩ := parse_lines_ended lib localArch state eof
        exact ⟨result, fun fuel enough => runs fuel (by omega),
          fun text last same => Nat.le_of_eq (none_ text last same)⟩
      · have some_ := scanned_pending _ scanned eof
        omega
  | succ lineEnds ih =>
      cases parsed : parseLine lib localArch state with
      | error message =>
          refine ⟨.error message, fun fuel enough => ?_, fun text last same => by cases same⟩
          obtain ⟨turns, rfl⟩ := Nat.exists_eq_add_of_le enough
          rw [Nat.add_right_comm]
          simp only [parseLines, parsed]
      | ok both =>
          obtain ⟨statement, next⟩ := both
          by_cases eof : statement.line = .eof
          · refine ⟨.ok ([], next), fun fuel enough => ?_, fun text last same => ?_⟩
            · obtain ⟨turns, rfl⟩ := Nat.exists_eq_add_of_le enough
              rw [Nat.add_right_comm]
              simp only [parseLines, parsed, eof, if_true]
            · cases same
              exact Nat.zero_le _
          · have step := parse_line_step lib localArch state statement next parsed
            obtain ⟨n, reached⟩ := line_taken_ahead _ _ _
              (parse_line_taken lib localArch state statement next parsed)
            have again : next.tokens.Scanned := reached ▸ scanned_ahead _ scanned n
            -- the line used up a line end, or the input has ended behind it
            have rest : ∃ result, (∀ fuel, lineEnds + 2 ≤ fuel →
                parseLines lib localArch fuel next = some result) ∧
                ∀ text last, result = .ok (text, last) → text.length ≤ lineEnds := by
              rcases step.ended with fewer | ⟨_, ended⟩
              · apply ih next again
                omega
              · obtain ⟨result, runs, none_⟩ := parse_lines_ended lib localArch next ended
                refine ⟨result, fun fuel enough => runs fuel (by omega), fun text last same => ?_⟩
                rw [none_ text last same]
                apply Nat.zero_le
            obtain ⟨result, runs, few⟩ := rest
            refine ⟨result.map fun done => (statement :: done.1, done.2), ?_, ?_⟩
            · intro fuel enough
              obtain ⟨turns, rfl⟩ := Nat.exists_eq_add_of_le enough
              have loop := runs (lineEnds + 2 + turns) (Nat.le_add_right _ _)
              rw [show lineEnds + 1 + 2 + turns = lineEnds + 2 + turns + 1 by omega]
              simp only [parseLines, parsed, eof, if_false, loop, Option.map_some]
            · intro text last same
              cases result with
              | error message => cases same
              | ok found =>
                  cases same
                  have bound := few found.1 found.2 rfl
                  rw [List.length_cons]
                  omega

theorem sync_stops (fuel : Nat) (tokens : Tokens) (enough : tokens.turns ≤ fuel) :
    ∃ n, (tokens.ahead n).EndsAt (tokens.sync fuel) ∧
      ∀ i < n, (tokens.ahead i).next.type ∉ [.eol, .tokenEof] := by
  induction fuel generalizing tokens with
  | zero =>
      unfold Tokens.turns at enough
      split at enough <;> omega
  | succ fuel ih =>
      unfold Tokens.sync
      split
      · next eol => exact ⟨0, Or.inl ⟨eol, rfl⟩, fun i below => absurd below (Nat.not_lt_zero i)⟩
      · next notEol =>
          split
          · next eof =>
              exact ⟨0, Or.inr ⟨eof, rfl⟩, fun i below => absurd below (Nat.not_lt_zero i)⟩
          · next notEof =>
              have less := turns_advance tokens (not_or.mpr ⟨notEol, notEof⟩)
              obtain ⟨n, ends, inside⟩ := ih tokens.advance (by omega)
              refine ⟨1 + n, ?_, fun i below => ?_⟩
              · rw [ahead_add]
                exact ends
              · cases i with
                | zero => simp [Tokens.ahead, notEol, notEof]
                | succ i =>
                    rw [Nat.add_comm, ahead_add]
                    exact inside i (by omega)

/-- `next_line` has returned every line once it was called as often as there are bytes. -/
theorem next_lines_settled (fuel more : Nat) (source : Text) (enough : source.length ≤ fuel)
    (too : source.length ≤ more) : nextLines fuel source = nextLines more source := by
  induction fuel generalizing more source with
  | zero =>
      have empty : source = [] := List.length_eq_zero_iff.mp (Nat.le_zero.mp enough)
      subst empty
      cases more <;> rfl
  | succ fuel ih =>
      cases source with
      | nil => cases more <;> rfl
      | cons first rest =>
          cases more with
          | zero => exact absurd too (Nat.not_succ_le_zero _)
          | succ more =>
              simp only [nextLines]
              cases (first :: rest).idxOf? '\n' with
              | none => rfl
              | some lineBreak =>
                  dsimp only
                  -- at least the line break is used up
                  have skipped := (List.dropWhile_sublist (· == nulChar)
                    (l := (first :: rest).drop (lineBreak + 1))).length_le
                  simp only [List.length_drop, List.length_cons] at skipped enough too
                  rw [ih more _ (by omega) (by omega)]

/-- The characters that end a line of the file. -/
def lineBreaks (file : Text) : Nat :=
  match detectFileType file with
  | .ok (_, lf) => file.count lf
  | .error _ => 0

theorem process_loop_count (fileType : FileType) (lf : Char) (fuel : Nat) (done : Text)
    (lineNr : Nat) (rest : Text) (enough : rest.length < fuel) (breaks : lf = '\n' ∨ '\n' ∉ rest)
    (source : Text) (last : Nat)
    (processed : processLoop fileType lf fuel done lineNr rest = .ok (source, last)) :
    source.count '\n' ≤ done.count '\n' + rest.count lf := by
  induction fuel generalizing done lineNr rest with
  | zero => exact absurd enough (Nat.not_lt_zero _)
  | succ fuel ih =>
      unfold processLoop at processed
      cases found : (rest.take maxLineLen).idxOf? lf with
      | some lineBreak =>
          -- a break was found: one line more, and one break less to come
          simp only [found] at processed
          obtain ⟨before, split⟩ := break_split lf rest maxLineLen lineBreak found
          have short : (rest.drop (lineBreak + 1)).length < rest.length := by
            conv => rhs; rw [split]
            simp only [List.length_append, List.length_cons]
            omega
          have single : '\n' ∉ rest.take lineBreak := by
            rcases breaks with rfl | absent
            · exact before
            · exact fun member => absent (List.mem_of_mem_take member)
          have behind : lf = '\n' ∨ '\n' ∉ rest.drop (lineBreak + 1) :=
            breaks.imp_right fun absent member => absent (List.mem_of_mem_drop member)
          have later := ih _ _ _ (by omega) behind processed
          have closed := close_line_breaks fileType done _ single
          have counted : rest.count lf = (rest.drop (lineBreak + 1)).count lf + 1 := by
            conv => lhs; rw [split]
            rw [List.count_append, List.count_eq_zero.mpr before, Nat.zero_add, List.count_cons_self]
          omega
      | none =>
          -- the rest is the last line, which has no break
          simp only [found] at processed
          split at processed
          · cases processed
          · next small =>
              split at processed
              · cases processed
              · simp only [Except.ok.injEq, Prod.mk.injEq] at processed
                have whole : rest.take maxLineLen = rest :=
                  List.take_of_length_le (Nat.le_of_lt (Nat.lt_of_not_le small))
                have absent : '\n' ∉ rest := by
                  rcases breaks with rfl | absent
                  · rw [whole] at found
                    exact List.idxOf?_eq_none_iff.mp found
                  · exact absent
                have cleared := clear_color_breaks rest
                have none_ := List.count_eq_zero.mpr absent
                rw [← processed.1, List.count_append]
                omega

theorem init_source_breaks (file source : Text) (init : initSource file = .ok source) :
    source.count '\n' ≤ lineBreaks file := by
  unfold initSource at init
  unfold lineBreaks
  split at init
  · cases init
  · split at init
    · cases init
    · cases detected : detectFileType file with
      | error message =>
          rw [detected] at init
          cases init
      | ok type =>
          rw [detected] at init
          cases processed : processLoop type.1 type.2 (file.length + 1) [] 1 file with
          | error message => simp [processed, Except.map] at init
          | ok result =>
              simp only [processed, Except.map, Except.ok.injEq] at init
              subst init
              have count := process_loop_count type.1 type.2 _ [] 1 file (Nat.lt_succ_self _)
                (detected_breaks file type.1 type.2 detected) result.1 result.2 processed
              rw [List.count_nil, Nat.zero_add] at count
              exact count

/-- Reading, scanning and parsing end on every file that `init_source` accepts: `next_line`
with the lines, the loop of `parser` with a statement for each of them at most, the loop of
`error_at` at the end of the line it is in. Each token consumes something of its line, ends
it or ends the input for good. -/
theorem scanning_ends (lib : Libseccomp) (localArch : Word) (file source : Text)
    (init : initSource file = .ok source) :
    (∃ lines, (∀ fuel, source.length ≤ fuel → nextLines fuel source = lines) ∧
      ∃ result,
        (∀ fuel, lines.length + 2 ≤ fuel →
          parseLines lib localArch fuel (initParse lines) = some result) ∧
        ∀ text last, result = .ok (text, last) → text.length ≤ lineBreaks file + 1) ∧
    (∀ (tokens : Tokens) (fuel : Nat), tokens.syncFuel ≤ fuel →
      ∃ n, (tokens.ahead n).EndsAt (tokens.sync fuel)) ∧
    (∀ scanner : Scanner,
      (scanToken scanner).1.type = .tokenEof ∨
      ((scanToken scanner).1.type = .eol ∧ (scanToken scanner).2.lineNr = scanner.lineNr + 1 ∧
        (scanToken scanner).2.lineEnds < scanner.lineEnds) ∨
      ((scanToken scanner).2.lineNr = scanner.lineNr ∧
        (scanToken scanner).2.lineEnds = scanner.lineEnds ∧
        (scanToken scanner).2.chars < scanner.chars)) ∧
    ∀ (scanner : Scanner) (n m : Nat), n ≤ m → (scanner.token n).type = .tokenEof →
      (scanner.token m).type = .tokenEof := by
  refine ⟨⟨nextLines source.length source, ?_, ?_⟩, ?_, scan_token_moves, eof_for_good⟩
  · intro fuel enough
    exact next_lines_settled fuel source.length source enough (Nat.le_refl _)
  · have scanned : (initParse (nextLines source.length source)).tokens.Scanned :=
      ⟨initScanner (nextLines source.length source), rfl, rfl⟩
    obtain ⟨result, runs, few⟩ := parse_lines_total lib localArch _ _ scanned
      (Nat.le_of_eq (init_parser_pending (nextLines source.length source)))
    refine ⟨result, runs, fun text last same => ?_⟩
    calc text.length ≤ (nextLines source.length source).length := few text last same
      _ ≤ source.count '\n' + 1 := next_lines_length source.length source
      _ ≤ lineBreaks file + 1 := Nat.succ_le_succ (init_source_breaks file source init)
  · intro tokens fuel enough
    obtain ⟨n, ends, _⟩ := sync_stops fuel tokens (Nat.le_trans (sync_fuel_enough tokens) enough)
    exact ⟨n, ends⟩

theorem scanning_ends_unterminated :
    ∃ lines result, nextLines 17 "return ALLOW\n$$$".toList = lines ∧
      parseLines namelessLib archX8664 4 (initParse lines) = some result ∧
      ∀ text last, result = .ok (text, last) → text.length ≤ 2 := by
  have init : initSource "return ALLOW\n$$$".toList = .ok "return ALLOW\n$$$".toList := by
    decide +kernel
  obtain ⟨⟨lines, read, result, runs, few⟩, _⟩ :=
    scanning_ends namelessLib archX8664 _ _ init
  have cut := read 17 (by decide)
  have two : lines.length = 2 := by
    rw [← cut]
    decide +kernel
  have breaks : lineBreaks "return ALLOW\n$$$".toList = 1 := by decide +kernel
  refine ⟨lines, result, cut, runs 4 (Nat.le_of_eq (by rw [two])), fun text last same => ?_⟩
  have bound := few text last same
  rw [breaks] at bound
  exact bound

end Ceccomp
