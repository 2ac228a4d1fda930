import Ceccomp.Disasm.Formatter
import Ceccomp.Text.Segments
import Ceccomp.Text.Silence

/-!
The buffers of `report_error` and `error_line`, and how long the lines are that are printed
to them.
-/

namespace Ceccomp

def shownLine (statement : Statement) : Text :=
  (statement.lineStart.take statement.lineLen).takeWhile (· != nulChar)

/-- What `report_error` writes to its buffer. -/
def reportBuffer (statement : Statement) (errorMsg : Text) : Text :=
  decText statement.textNr ++ ":-: ".toList ++ errorMsg ++ ['\n'] ++ shownLine statement ++ ['\n'] ++
    List.replicate statement.lineLen '~' ++ [nulChar]

def errLen (statement : Statement) (line : ErrorLine) : Nat :=
  (statement.lineStart.length - line.errorStart.length) % 2 ^ 16

def errorBuffer (statement : Statement) (line : ErrorLine) (errorMsg : Text) : Text :=
  decText statement.textNr ++ [':'] ++ decText ((errLen statement line + 1) % 2 ^ 16) ++
    ": ".toList ++ errorMsg ++ ['\n'] ++ shownLine statement ++ ['\n'] ++
    List.replicate (errLen statement line) ' ' ++ ['^', nulChar]

def bufferSize : Nat := 0x400

/-- The lengths are small enough, and the two buffers hold what is written to them. -/
structure FitsBuffer (statement : Statement) : Prop where
  line : statement.lineLen < maxLineLen
  start : ∀ line, statement.line = .error line → errLen statement line < maxLineLen
  report : ∀ errorMsg : Text, errorMsg.length < 200 →
    (reportBuffer statement errorMsg).length ≤ bufferSize
  error : ∀ line, statement.line = .error line → ∀ errorMsg : Text, errorMsg.length < 200 →
    (errorBuffer statement line errorMsg).length ≤ bufferSize

theorem dec_text_short (n : Nat) (small : n < 2 ^ 16) : (decText n).length ≤ 5 :=
  (Nat.length_toDigits_le_iff (by decide) (by decide)).mpr (Nat.lt_trans small (by decide))

theorem shown_line_short (statement : Statement) :
    (shownLine statement).length ≤ statement.lineLen :=
  Nat.le_trans (List.takeWhile_sublist _).length_le (List.length_take_le _ _)

theorem fits_of_short (statement : Statement) (number : statement.textNr < 2 ^ 16)
    (short : statement.lineLen < maxLineLen)
    (start : ∀ line, statement.line = .error line → errLen statement line < maxLineLen) :
    FitsBuffer statement := by
  have digits := dec_text_short statement.textNr number
  have shown := shown_line_short statement
  refine ⟨short, start, fun errorMsg few => ?_, fun line failed errorMsg few => ?_⟩
  · have header : (":-: ".toList : Text).length = 4 := rfl
    simp only [reportBuffer, List.length_append, List.length_replicate, List.length_cons,
      List.length_nil, header, maxLineLen, bufferSize] at short ⊢
    omega
  · have before := start line failed
    have column := dec_text_short ((errLen statement line + 1) % 2 ^ 16) (Nat.mod_lt _ (by decide))
    have header : (": ".toList : Text).length = 2 := rfl
    simp only [errorBuffer, List.length_append, List.length_replicate, List.length_cons,
      List.length_nil, header, maxLineLen, bufferSize] at short before ⊢
    omega

/-- The last token of a line that begins with the first one: its break, or the one before
the scanner gives up. -/
structure LastToken (scanner : Scanner) (a n : Nat) : Prop where
  order : a ≤ n
  inside : ∀ i, a ≤ i → i < n → (scanner.token i).type ∉ [.eol, .tokenEof]
  some_ : (scanner.token n).type ≠ .tokenEof
  ends : (scanner.token n).type = .eol ∨ (scanner.token (n + 1)).type = .tokenEof

/-- A line begins with the token: at the start and behind every line break. -/
def FirstToken (scanner : Scanner) (a : Nat) : Prop :=
  a = 0 ∨ ∃ b, a = b + 1 ∧ (scanner.token b).type = .eol

/-- No line is too long, measured in 16 bits from its first token to its last. -/
def ShortLines (scanner : Scanner) : Prop :=
  ∀ a n, FirstToken scanner a → LastToken scanner a n →
    scanner.offset a n % 2 ^ 16 < maxLineLen

theorem last_token_unique (scanner : Scanner) (a n m : Nat) (one : LastToken scanner a n)
    (other : LastToken scanner a m) : n = m := by
  have less (n m : Nat) (one : LastToken scanner a n) (other : LastToken scanner a m) : ¬ n < m := by
    intro before
    rcases one.ends with eol | eof
    · exact other.inside n one.order before (by simp [eol])
    · exact other.some_ (eof_for_good scanner (n + 1) m before eof)
  exact Nat.le_antisymm (Nat.le_of_not_lt (less m n other one)) (Nat.le_of_not_lt (less n m one other))

section Lines

variable (scanner : Scanner)

def parserAt (n : Nat) : Tokens := (initParser scanner).ahead n

theorem parser_at_next (n : Nat) : (parserAt scanner n).next = scanner.token n :=
  (ahead_scanned scanner (initParser scanner) rfl rfl n).1

theorem parser_at_ahead (a n : Nat) : (parserAt scanner a).ahead n = parserAt scanner (a + n) :=
  (ahead_add _ a n).symm

theorem parser_at_current (n : Nat) : (parserAt scanner (n + 1)).current = scanner.token n :=
  parser_at_next scanner n

/-- How a line was measured: by its last token, or it is short for certain. -/
structure LineMeasured (a : Nat) (statement : Statement) (after : Tokens) (n : Nat) : Prop where
  last : LastToken scanner a n
  line : statement.lineLen = scanner.offset a n % 2 ^ 16 ∨
    (statement.lineLen < maxLineLen ∧ scanner.offset a n < maxLineLen)
  start : ∀ line, statement.line = .error line → errLen statement line < maxLineLen
  next : after = parserAt scanner (n + 1)

variable {scanner}

/-- The token where a line ends is the last one, or the input ends behind the last one. -/
theorem last_token_of (a k : Nat) (after : Tokens)
    (more : (scanner.token a).type ≠ .tokenEof)
    (ends : ((parserAt scanner a).ahead k).EndsAt after)
    (inside : ∀ i < k, ((parserAt scanner a).ahead i).next.type ∉ [.eol, .tokenEof]) :
    (LastToken scanner a (a + k) ∧ after = parserAt scanner (a + k + 1)) ∨
      ∃ m, k = m + 1 ∧ LastToken scanner a (a + m) ∧
        (scanner.token (a + m + 1)).type = .tokenEof ∧ after = parserAt scanner (a + m + 1) := by
  have between (i : Nat) (low : a ≤ i) (below : i < a + k) :
      (scanner.token i).type ∉ [.eol, .tokenEof] := by
    obtain ⟨j, rfl⟩ := Nat.exists_eq_add_of_le low
    have known := inside j (Nat.lt_of_add_lt_add_left below)
    rw [parser_at_ahead, parser_at_next] at known
    exact known
  rw [parser_at_ahead] at ends
  rcases ends with ⟨eol, rfl⟩ | ⟨eof, rfl⟩
  · rw [parser_at_next] at eol
    refine Or.inl ⟨?_, rfl⟩
    exact
      { order := Nat.le_add_right a k
        inside := between
        some_ := by simp [eol]
        ends := Or.inl eol }
  · rw [parser_at_next] at eof
    cases k with
    | zero => exact absurd eof more
    | succ m =>
        refine Or.inr ⟨m, rfl, ?_, eof, rfl⟩
        have last := between (a + m) (Nat.le_add_right a m) (Nat.lt_succ_self _)
        simp only [List.mem_cons, List.not_mem_nil, or_false, not_or] at last
        exact
          { order := Nat.le_add_right a m
            inside := fun i low below => between i low (Nat.lt_succ_of_lt below)
            some_ := last.2
            ends := Or.inr eof }

theorem whole_measured (short : scanner.Within ShortRuns) (a : Nat) (statement : Statement)
    (last after : Tokens) (taken : Nat) (start : statement.lineStart = (scanner.token a).start)
    (more : (scanner.token a).type ≠ .tokenEof) (inside : (parserAt scanner a).Inside taken last)
    (ends : (pastComment last).EndsAt after)
    (length : statement.lineLen =
      (statement.lineStart.length - (pastComment last).next.start.length) % 2 ^ 16)
    (proper : ∀ error, statement.line ≠ .error error) :
    ∃ n, LineMeasured scanner a statement after n := by
  obtain ⟨k, _, behind, ended, before⟩ := whole_line_ahead _ _ _ _ inside ends
  have measured : statement.lineLen = scanner.offset a (a + k) % 2 ^ 16 := by
    rw [length, behind, parser_at_ahead, parser_at_next, start]
    rfl
  rcases last_token_of a k after more ended fun i below => refused_inside _ (before i below) with
    ⟨last, next⟩ | ⟨m, rfl, last, eof, next⟩
  · exact ⟨a + k,
      { last, line := Or.inl measured, start := fun line same => absurd same (proper line), next }⟩
  · -- a comment would be followed by the end of the line
    have asked (i : Nat) (low : a ≤ i) (below : i < a + (m + 1)) :
        (scanner.token i).type ∉ refused := by
      obtain ⟨j, rfl⟩ := Nat.exists_eq_add_of_le low
      have inside := Nat.lt_of_add_lt_add_left below
      rcases before j inside with known | comment
      · rwa [parser_at_ahead, parser_at_next] at known
      · rw [parser_at_ahead, parser_at_next] at comment
        have eol := comment_ends scanner (a + j) comment
        rcases Nat.lt_succ_iff_lt_or_eq.mp inside with earlier | rfl
        · have later := refused_inside _ (before (j + 1) (Nat.succ_lt_succ earlier))
          rw [parser_at_ahead, parser_at_next] at later
          exact absurd (by simp [← Nat.add_assoc, eol]) later
        · rw [eof] at eol
          cases eol
    have near := offset_short scanner short a (a + (m + 1)) (Nat.le_add_right _ _) asked
    have nearer := offset_short scanner short a (a + m) (Nat.le_add_right _ _)
      fun i low below => asked i low (Nat.lt_succ_of_lt below)
    refine ⟨a + m,
      { last, line := Or.inr ⟨?_, nearer⟩, start := fun line same => absurd same (proper line)
        next }⟩
    rw [measured]
    exact Nat.lt_of_le_of_lt (Nat.mod_le _ _) near

theorem failed_measured (short : scanner.Within ShortRuns) (a : Nat) (statement : Statement)
    (after : Tokens) (errorStart : Text) (message : Message)
    (start : statement.lineStart = (scanner.token a).start)
    (more : (scanner.token a).type ≠ .tokenEof)
    (line : statement.line = .error { errorStart, errorMsg := message })
    (fails : (parserAt scanner a).Fails errorStart after)
    (length : statement.lineLen =
      (statement.lineStart.length - after.current.start.length) % 2 ^ 16) :
    ∃ n, LineMeasured scanner a statement after n := by
  obtain ⟨count, failed, inside, rfl, raises⟩ := fails.skipped
  obtain ⟨rfl, before⟩ := inside_ahead _ failed count inside
  obtain ⟨k, _, ended, skipped⟩ := skipped_ends _ count fun i below =>
    refused_inside _ (Or.inl (before i below))
  have near (j : Nat) (low : a ≤ j) (high : j ≤ a + count) : scanner.offset a j < maxLineLen := by
    apply offset_short scanner short a j low
    intro i first below
    obtain ⟨m, rfl⟩ := Nat.exists_eq_add_of_le first
    have known := before m (by omega)
    rwa [parser_at_ahead, parser_at_next] at known
  have at_ : ∃ j, a ≤ j ∧ j ≤ a + count ∧ errorStart = (scanner.token j).start := by
    rw [parser_at_ahead] at raises
    rcases raises with next | ⟨one, current⟩ | ⟨two, previous⟩
    · exact ⟨a + count, Nat.le_add_right a count, Nat.le_refl _,
        next.trans (congrArg Token.start (parser_at_next scanner _))⟩
    · obtain ⟨m, rfl⟩ := Nat.exists_eq_add_of_le one
      refine ⟨a + m, Nat.le_add_right a m, by omega, current.trans ?_⟩
      rw [Nat.add_comm 1 m]
      exact congrArg Token.start (parser_at_current scanner (a + m))
    · obtain ⟨m, rfl⟩ := Nat.exists_eq_add_of_le two
      refine ⟨a + m, Nat.le_add_right a m, by omega, previous.trans ?_⟩
      rw [Nat.add_comm 2 m]
      exact congrArg Token.start (parser_at_current scanner (a + m))
  have starts : ∀ other, statement.line = .error other → errLen statement other < maxLineLen := by
    intro other same
    rw [line] at same
    cases same
    obtain ⟨j, low, high, rfl⟩ := at_
    unfold errLen
    rw [start]
    exact Nat.lt_of_le_of_lt (Nat.mod_le _ _) (near j low high)
  rcases last_token_of a k _ more ended skipped with ⟨last, next⟩ | ⟨m, rfl, last, _, next⟩
  · refine ⟨a + k, { last, line := Or.inl ?_, start := starts, next }⟩
    rw [length, next, parser_at_current, start]
    rfl
  · refine ⟨a + m, { last, line := Or.inl ?_, start := starts, next }⟩
    rw [length, next, parser_at_current, start]
    rfl

theorem line_measured (short : scanner.Within ShortRuns) (a : Nat) (statement : Statement) (after : Tokens)
    (start : statement.lineStart = (scanner.token a).start)
    (more : (scanner.token a).type ≠ .tokenEof)
    (taken : LineTaken (parserAt scanner a) statement after) :
    ∃ n, LineMeasured scanner a statement after n := by
  cases taken with
  | whole count last inside ends length proper eof =>
      exact whole_measured short a statement last after count start more inside ends length proper
  | failed errorStart message line fails length =>
      exact failed_measured short a statement after errorStart message start more line fails length
  | behind count last inside message comment notEnd line skipped =>
      obtain ⟨rfl, _⟩ := inside_ahead _ last count inside
      rw [parser_at_ahead, parser_at_next] at comment
      have eol := comment_ends scanner _ comment
      have next : ((parserAt scanner a).ahead count).advance.next = scanner.token (a + count + 1) := by
        rw [parser_at_ahead]
        exact parser_at_next scanner (a + count + 1)
      rw [next, eol] at notEnd
      exact absurd List.mem_cons_self notEnd

variable {lib : Libseccomp} {localArch : Word}

/-- The input ends behind tokens that rules asked for: what is left of the line is short. -/
theorem rest_short (short : scanner.Within ShortRuns) (b count : Nat)
    (asked : ∀ i < count, ((parserAt scanner b).ahead i).next.type ∉ refused)
    (eof : (scanner.token (b + count)).type = .tokenEof) (a n : Nat) (low : b ≤ a)
    (last : LastToken scanner a n) : scanner.offset a n < maxLineLen := by
  have known (i : Nat) (from_ : b ≤ i) (below : i < b + count) :
      (scanner.token i).type ∉ refused := by
    obtain ⟨j, rfl⟩ := Nat.exists_eq_add_of_le from_
    have there := asked j (Nat.lt_of_add_lt_add_left below)
    rwa [parser_at_ahead, parser_at_next] at there
  have before : n < b + count := by
    apply Nat.lt_of_not_le
    intro behind
    exact last.some_ (eof_for_good scanner _ n behind eof)
  exact offset_short scanner short a n last.order fun i from_ below =>
    known i (Nat.le_trans low from_) (Nat.lt_trans below before)

theorem later_line (a n b : Nat) (last : LastToken scanner a n) (low : a ≤ b) (other : b ≠ a)
    (first : FirstToken scanner b) : n + 1 ≤ b ∧ (scanner.token n).type = .eol := by
  rcases first with rfl | ⟨c, rfl, eol⟩
  · exact absurd (Nat.le_zero.mp low).symm other
  · have from_ : a ≤ c := by omega
    have reach : n ≤ c := by
      apply Nat.le_of_not_lt
      intro below
      exact last.inside c from_ below (by simp [eol])
    rcases last.ends with ends | eof
    · exact ⟨Nat.succ_le_succ reach, ends⟩
    · rcases Nat.eq_or_lt_of_le reach with rfl | past
      · exact ⟨Nat.le_refl _, eol⟩
      · have over_ := eof_for_good scanner (n + 1) c past eof
        rw [over_] at eol
        cases eol

/-- The statements of a run and the lines from its first token on, each measured by the other. -/
theorem run_measured (short : scanner.Within ShortRuns) {state last : ParseState} {text : List Statement}
    (run : ParseRun lib localArch state text last) (b : Nat)
    (at_ : state.tokens = parserAt scanner b) (first : FirstToken scanner b) :
    (∀ statement ∈ text,
      (∀ line, statement.line = .error line → errLen statement line < maxLineLen) ∧
      (statement.lineLen < maxLineLen ∨ ∃ a n, FirstToken scanner a ∧ LastToken scanner a n ∧
        statement.lineLen = scanner.offset a n % 2 ^ 16)) ∧
    ∀ a n, b ≤ a → FirstToken scanner a → LastToken scanner a n →
      scanner.offset a n < maxLineLen ∨
        ∃ statement ∈ text, statement.lineLen = scanner.offset a n % 2 ^ 16 := by
  -- line by line, each of which is measured from its first token to its last
  induction run generalizing b with
  | stop state statement last parsed eof =>
      have taken := parse_line_taken lib localArch state statement last parsed
      rw [at_] at taken
      refine ⟨by simp, fun a n low starts ends => Or.inl ?_⟩
      cases taken with
      | failed errorStart message line fails length =>
          rw [eof] at line
          cases line
      | behind count last inside message comment notEnd line skipped =>
          rw [eof] at line
          cases line
      | whole count last inside _ length proper end_ =>
          obtain ⟨rfl, asked⟩ := inside_ahead _ last count inside
          have type := end_ eof
          rw [parser_at_ahead, parser_at_next] at type
          exact rest_short short b count asked type a n low ends
  | line state statement next later last parsed more rest ih =>
      have taken := parse_line_taken lib localArch state statement next parsed
      have start := parse_line_start lib localArch state statement next parsed
      have notEof : (scanner.token b).type ≠ .tokenEof := by
        intro eof
        rw [← parser_at_next, ← at_] at eof
        exact more (parse_line_eof lib localArch state statement next eof parsed)
      rw [at_] at taken start
      rw [parser_at_next] at start
      obtain ⟨n, measured⟩ := line_measured short b statement next.tokens start notEof taken
      have own : statement.lineLen < maxLineLen ∨ ∃ a n, FirstToken scanner a ∧
          LastToken scanner a n ∧ statement.lineLen = scanner.offset a n % 2 ^ 16 := by
        rcases measured.line with same | ⟨small, _⟩
        · exact Or.inr ⟨b, n, first, measured.last, same⟩
        · exact Or.inl small
      have here (m : Nat) (ends : LastToken scanner b m) :
          scanner.offset b m < maxLineLen ∨
            ∃ other ∈ statement :: later, other.lineLen = scanner.offset b m % 2 ^ 16 := by
        rw [← last_token_unique scanner b n m measured.last ends]
        rcases measured.line with same | ⟨_, small⟩
        · exact Or.inr ⟨statement, List.mem_cons_self, same⟩
        · exact Or.inl small
      -- behind an end of line there is another first token; otherwise the input is over
      by_cases eol : (scanner.token n).type = .eol
      · obtain ⟨each, every⟩ := ih (n + 1) measured.next (Or.inr ⟨n, rfl, eol⟩)
        refine ⟨List.forall_mem_cons.mpr ⟨⟨measured.start, own⟩, each⟩, fun a m low starts ends => ?_⟩
        by_cases same : a = b
        · subst same
          exact here m ends
        · have past := (later_line b n a measured.last low same starts).1
          rcases every a m past starts ends with small | ⟨other, there, found⟩
          · exact Or.inl small
          · exact Or.inr ⟨other, List.mem_cons_of_mem _ there, found⟩
      · have eof := measured.last.ends.resolve_left eol
        rw [← parser_at_next, ← measured.next] at eof
        have nothing : later = [] := by
          cases rest with
          | stop => rfl
          | line _ another _ _ _ again goes _ =>
              exact absurd (parse_line_eof lib localArch next another _ eof again) goes
        subst nothing
        refine ⟨List.forall_mem_cons.mpr ⟨⟨measured.start, own⟩, fun other none_ => (by cases none_)⟩,
          fun a m low starts ends => ?_⟩
        by_cases same : a = b
        · subst same
          exact here m ends
        · exact absurd (later_line b n a measured.last low same starts).2 eol

end Lines

section Walk

/-- How far the scanner gets in a line: to its end, with so many unknown characters by then,
or it gives up, and the token before begins with `last`. -/
inductive Walk where
  | ended (unknownCount : Nat)
  | gaveUp (last : Text)

def walkLine : Nat → Nat → Text → Text → Walk
  | 0, unknownCount, _, _ => .ended unknownCount
  | fuel + 1, unknownCount, last, rest =>
      let start := rest.dropWhile isSpace
      if start = [] ∨ peekAt start 0 = '#' then .ended unknownCount
      else
        match scanLexeme start with
        | some (_, len, _) => walkLine fuel unknownCount start (start.drop len)
        | none =>
            if unknownCount > 5 then .gaveUp last
            else walkLine fuel (unknownCount + 1) start (start.drop 1)

/-- The lines of a source without the blanks they begin with are short, counted in 16 bits. The
one in which the scanner gives up counts up to the last token, and those behind it do not. -/
def LinesFit : Nat → List Text → Prop
  | _, [] => True
  | unknownCount, line :: later =>
      let start := line.dropWhile isSpace
      match walkLine (line.length + 1) unknownCount start line with
      | .ended count => start.length % 2 ^ 16 < maxLineLen ∧ LinesFit count later
      | .gaveUp last => (start.length - last.length) % 2 ^ 16 < maxLineLen

variable (scanner : Scanner) {rest : Text} (here : scanner.rest = some rest)

include here

theorem start_here : (scanToken scanner).1.start = rest.dropWhile isSpace := by
  rw [scan_start, here]
  rfl

theorem scan_blank (blank : rest.dropWhile isSpace = []) :
    (scanToken scanner).1.type = .eol ∧
      (scanToken scanner).2 =
        { scanner with
          rest := scanner.lines.head?, lines := scanner.lines.tail, lineNr := scanner.lineNr + 1 } := by
  unfold scanToken
  rw [here]
  dsimp only
  rw [if_pos blank]
  exact ⟨rfl, rfl⟩

theorem scan_comment (more : rest.dropWhile isSpace ≠ [])
    (sharp : peekAt (rest.dropWhile isSpace) 0 = '#') :
    (scanToken scanner).1.type = .comment ∧
      (scanToken scanner).2 = { scanner with rest := some [] } := by
  unfold scanToken
  rw [here]
  dsimp only
  rw [if_neg more, if_pos sharp]
  exact ⟨rfl, rfl⟩

theorem scan_known (more : rest.dropWhile isSpace ≠ [])
    (plain : peekAt (rest.dropWhile isSpace) 0 ≠ '#') (type : TokenType) (len : Nat) (data : Word)
    (known : scanLexeme (rest.dropWhile isSpace) = some (type, len, data)) :
    (scanToken scanner).1.type = type ∧
      (scanToken scanner).2 = { scanner with rest := some ((rest.dropWhile isSpace).drop len) } := by
  unfold scanToken
  rw [here]
  dsimp only
  rw [if_neg more, if_neg plain, known]
  exact ⟨rfl, rfl⟩

theorem scan_unknown (more : rest.dropWhile isSpace ≠ [])
    (plain : peekAt (rest.dropWhile isSpace) 0 ≠ '#')
    (foreign : scanLexeme (rest.dropWhile isSpace) = none) :
    if scanner.unknownCount > 5 then (scanToken scanner).1.type = .tokenEof
    else (scanToken scanner).1.type = .unknown ∧
      (scanToken scanner).2 =
        { scanner with
          rest := some ((rest.dropWhile isSpace).drop 1)
          unknownCount := scanner.unknownCount + 1 } := by
  unfold scanToken
  rw [here]
  dsimp only
  rw [if_neg more, if_neg plain, foreign]
  dsimp only
  split
  · rfl
  · exact ⟨rfl, rfl⟩

end Walk

section Fit

variable {scanner : Scanner} {a : Nat}

/-- What the walk along a line that begins with token `a` says of its last token. -/
def Walked (scanner : Scanner) (a : Nat) (line : Text) : Walk → Prop
  | .ended count =>
      ∃ n, LastToken scanner a n ∧ (scanner.token n).type = .eol ∧ (scanner.token n).start = [] ∧
        (scanner.after (n + 1)).rest = (scanner.after a).lines.head? ∧
        (scanner.after (n + 1)).lines = (scanner.after a).lines.tail ∧
        (scanner.after (n + 1)).unknownCount = count
  | .gaveUp last =>
      ((scanner.token a).type = .tokenEof ∧ last = line.dropWhile isSpace) ∨
        ∃ n, LastToken scanner a n ∧ (scanner.token n).type ≠ .eol ∧
          (scanner.token (n + 1)).type = .tokenEof ∧ (scanner.token n).start = last

/-- The walk through a line that begins with token `a` stands at token `m`. -/
structure Walking (scanner : Scanner) (a : Nat) (line : Text) (m count : Nat) (last rest : Text) :
    Prop where
  here : (scanner.after m).rest = some rest
  counted : (scanner.after m).unknownCount = count
  same : (scanner.after m).lines = (scanner.after a).lines
  order : a ≤ m
  inside : ∀ i, a ≤ i → i < m → (scanner.token i).type ∉ [.eol, .tokenEof]
  before : (m = a ∧ last = line.dropWhile isSpace) ∨
    ∃ k, m = k + 1 ∧ a ≤ k ∧ (scanner.token k).start = last

section Steps

variable {line : Text} {m count : Nat} {last rest : Text}
variable (walking : Walking scanner a line m count last rest)

include walking

theorem walking_next (type : TokenType) (own : (scanner.token m).type = type)
    (proper : type ∉ [.eol, .tokenEof]) (len count' : Nat)
    (after : scanner.after (m + 1) = { scanner.after m with
      rest := some ((rest.dropWhile isSpace).drop len), unknownCount := count' }) :
    Walking scanner a line (m + 1) count' (rest.dropWhile isSpace)
      ((rest.dropWhile isSpace).drop len) where
  here := by rw [after]
  counted := by rw [after]
  same := by
    rw [after]
    exact walking.same
  order := Nat.le_succ_of_le walking.order
  inside := by
    intro i low below
    rcases Nat.lt_succ_iff_lt_or_eq.mp below with earlier | rfl
    · exact walking.inside i low earlier
    · rw [own]
      exact proper
  before := Or.inr ⟨m, rfl, walking.order, start_here (scanner.after m) walking.here⟩

theorem walked_blank (blank : rest.dropWhile isSpace = []) :
    Walked scanner a line (.ended count) := by
  obtain ⟨eol, moved⟩ := scan_blank (scanner.after m) walking.here blank
  have after : scanner.after (m + 1) = (scanToken (scanner.after m)).2 := rfl
  refine ⟨m, ?_, eol, (start_here (scanner.after m) walking.here).trans blank, ?_, ?_, ?_⟩
  · have own : (scanner.token m).type = .eol := eol
    exact { order := walking.order, inside := walking.inside, some_ := by simp [own], ends := Or.inl own }
  · rw [after, moved, walking.same]
  · rw [after, moved, walking.same]
  · rw [after, moved]
    exact walking.counted

theorem walked_comment (more : rest.dropWhile isSpace ≠ [])
    (sharp : peekAt (rest.dropWhile isSpace) 0 = '#') : Walked scanner a line (.ended count) := by
  obtain ⟨comment, moved⟩ := scan_comment (scanner.after m) walking.here more sharp
  have over_ : (rest.dropWhile isSpace).drop (rest.dropWhile isSpace).length = [] := List.drop_length
  have next : Walking scanner a line (m + 1) count (rest.dropWhile isSpace)
      ((rest.dropWhile isSpace).drop (rest.dropWhile isSpace).length) := by
    apply walking_next walking .comment comment (by decide)
    have after : scanner.after (m + 1) = { scanner.after m with rest := some [] } := moved
    rw [after, over_, ← walking.counted]
  rw [over_] at next
  exact walked_blank next rfl

theorem walked_given_up (eof : (scanner.token m).type = .tokenEof) :
    Walked scanner a line (.gaveUp last) := by
  rcases walking.before with ⟨rfl, same⟩ | ⟨k, rfl, low, same⟩
  · exact Or.inl ⟨eof, same⟩
  · have proper := walking.inside k low (Nat.lt_succ_self k)
    simp only [List.mem_cons, List.not_mem_nil, or_false, not_or] at proper
    refine Or.inr ⟨k, ?_, proper.1, eof, same⟩
    exact
      { order := low
        inside := fun i from_ below => walking.inside i from_ (Nat.lt_succ_of_lt below)
        some_ := proper.2
        ends := Or.inr eof }

end Steps

theorem line_walked (line : Text) (m fuel count : Nat) (last rest : Text)
    (walking : Walking scanner a line m count last rest) (enough : rest.length < fuel) :
    Walked scanner a line (walkLine fuel count last rest) := by
  induction fuel generalizing m count last rest with
  | zero => exact absurd enough (Nat.not_lt_zero _)
  | succ fuel ih =>
      have shorter (len : Nat) (positive : 0 < len) (more : rest.dropWhile isSpace ≠ []) :
          ((rest.dropWhile isSpace).drop len).length < fuel := by
        have less := (List.dropWhile_suffix (p := isSpace) (l := rest)).length_le
        have some_ := List.length_pos_iff.mpr more
        rw [List.length_drop]
        omega
      unfold walkLine
      dsimp only
      by_cases blank : rest.dropWhile isSpace = []
      · rw [if_pos (Or.inl blank)]
        exact walked_blank walking blank
      by_cases sharp : peekAt (rest.dropWhile isSpace) 0 = '#'
      · rw [if_pos (Or.inr sharp)]
        exact walked_comment walking blank sharp
      rw [if_neg (not_or.mpr ⟨blank, sharp⟩)]
      cases scanned : scanLexeme (rest.dropWhile isSpace) with
      | some lexeme =>
          obtain ⟨type, len, data⟩ := lexeme
          obtain ⟨own, moved⟩ :=
            scan_known (scanner.after m) walking.here blank sharp type len data scanned
          have after : scanner.after (m + 1) =
            { scanner.after m with rest := some ((rest.dropWhile isSpace).drop len) } := moved
          refine ih (m + 1) count _ _ (walking_next walking type own ?_ len count ?_)
            (shorter len (scan_lexeme_length _ blank type len data scanned) blank)
          · have types := scan_lexeme_types _ type len data scanned
            simp only [markers, List.mem_cons, List.not_mem_nil, or_false, not_or] at types ⊢
            exact ⟨types.1, types.2.1⟩
          · rw [after, ← walking.counted]
      | none =>
          have step := scan_unknown (scanner.after m) walking.here blank sharp scanned
          rw [walking.counted] at step
          by_cases many : count > 5
          · rw [if_pos many] at step
            simp only [if_pos many]
            exact walked_given_up walking step
          · rw [if_neg many] at step
            simp only [if_neg many]
            exact ih (m + 1) (count + 1) _ _
              (walking_next walking .unknown step.1 (by decide) 1 (count + 1) step.2)
              (shorter 1 Nat.one_pos blank)

theorem nothing_behind (eof : (scanner.token a).type = .tokenEof) (b n : Nat) (low : a ≤ b)
    (last : LastToken scanner b n) : False :=
  last.some_ (eof_for_good scanner a n (Nat.le_trans low last.order) eof)

theorem short_lines_from (lines : List Text) (count : Nat)
    (here : (scanner.after a).rest = lines.head?) (later : (scanner.after a).lines = lines.tail)
    (counted : (scanner.after a).unknownCount = count) (first : FirstToken scanner a) :
    (∀ b n, a ≤ b → FirstToken scanner b → LastToken scanner b n →
      scanner.offset b n % 2 ^ 16 < maxLineLen) ↔ LinesFit count lines := by
  induction lines generalizing a count with
  | nil =>
      have eof : (scanner.token a).type = .tokenEof := by
        unfold Scanner.token scanToken
        rw [here]
        rfl
      exact iff_of_true (fun b n low _ last => (nothing_behind eof b n low last).elim) trivial
  | cons line rest ih =>
      have start : (scanner.token a).start = line.dropWhile isSpace := start_here _ here
      have walked : Walked scanner a line
          (walkLine (line.length + 1) count (line.dropWhile isSpace) line) :=
        line_walked line a (line.length + 1) count (line.dropWhile isSpace) line
          { here, counted
            same := rfl
            order := Nat.le_refl a
            inside := fun i low below => absurd low (Nat.not_le.mpr below)
            before := Or.inl ⟨rfl, rfl⟩ }
          (Nat.lt_succ_self _)
      unfold LinesFit
      dsimp only
      cases walk : walkLine (line.length + 1) count (line.dropWhile isSpace) line with
      -- the first line was scanned to its end
      | ended total =>
          rw [walk] at walked
          obtain ⟨n, last, eol, none_, next, tail, known⟩ := walked
          rw [later] at next tail
          have whole : scanner.offset a n = (line.dropWhile isSpace).length := by
            rw [Scanner.offset, start, none_]
            rfl
          have others := ih total next tail known (Or.inr ⟨n, rfl, eol⟩)
          dsimp only
          rw [← others, ← whole]
          constructor
          · intro all
            refine ⟨all a n (Nat.le_refl a) first last, fun b m low => all b m ?_⟩
            exact Nat.le_trans (Nat.le_succ_of_le last.order) low
          · rintro ⟨own, rest_⟩ b m low starts ends
            by_cases same : b = a
            · subst same
              rw [← last_token_unique scanner b n m last ends]
              exact own
            · exact rest_ b m (later_line a n b last low same starts).1 starts ends
      -- nothing behind the last token of this line is a line
      | gaveUp last =>
          rw [walk] at walked
          dsimp only
          rcases walked with ⟨eof, rfl⟩ | ⟨n, ends, proper, eof, rfl⟩
          · rw [Nat.sub_self]
            exact iff_of_true (fun b n low _ last => (nothing_behind eof b n low last).elim) (by decide)
          · have whole : scanner.offset a n =
                (line.dropWhile isSpace).length - (scanner.token n).start.length := by
              rw [Scanner.offset, start]
            rw [← whole]
            constructor
            · exact fun all => all a n (Nat.le_refl a) first ends
            · intro own b m low starts other
              by_cases same : b = a
              · subst same
                rw [← last_token_unique scanner b n m ends other]
                exact own
              · exact absurd (later_line a n b ends low same starts).2 proper

theorem short_lines_iff (lines : List Text) :
    ShortLines (initScanner lines) ↔ LinesFit 0 lines := by
  have here : ((initScanner lines).after 0).rest = lines.head? := rfl
  rw [← short_lines_from lines 0 here rfl rfl (Or.inl rfl)]
  constructor
  · exact fun all b n _ => all b n
  · exact fun all b n => all b n (Nat.zero_le b)

end Fit

theorem scanner_within (lines : List Text) (holds : Text → Prop)
    (each : ∀ line ∈ lines, holds line) : (initScanner lines).Within holds :=
  ⟨fun line first => each line (List.mem_of_head? first),
    fun line member => each line (List.mem_of_mem_tail member)⟩

/-- Diagnostics fit in their buffers exactly when the lines of the source do, which lines
without a zero inside always do. -/
theorem diagnostics_fit_iff (lib : Libseccomp) (localArch : Word) (file : Text)
    (lines : List Text) (read : sourceLines file = .ok lines) (parsed : Parsed)
    (parses : parser lib localArch lines = some (.ok parsed)) :
    ((∀ statement ∈ parsed.text, FitsBuffer statement) ↔ LinesFit 0 lines) ∧
      ((∀ line ∈ lines, nulChar ∉ line) → LinesFit 0 lines) := by
  rw [← short_lines_iff]
  have pieces := source_lines_short file lines read
  have short := scanner_within lines ShortRuns pieces
  obtain ⟨last, run, _⟩ := parser_run lib localArch lines parsed parses
  obtain ⟨each, every⟩ := run_measured short run 0 rfl (Or.inl rfl)
  have text := parser_text lib localArch lines parsed parses
  refine ⟨⟨?_, ?_⟩, ?_⟩
  · intro fits a n first ends
    rcases every a n (Nat.zero_le a) first ends with small | ⟨statement, member, same⟩
    · exact Nat.lt_of_le_of_lt (Nat.mod_le _ _) small
    · rw [← same]
      exact (fits statement member).line
  · intro lengths statement member
    obtain ⟨starts, line⟩ := each statement member
    obtain ⟨i, found⟩ := List.mem_iff_getElem?.mp member
    apply fits_of_short statement
    · rw [text.textNr i statement found]
      exact Nat.mod_lt _ (by decide)
    · rcases line with small | ⟨a, n, first, ends, same⟩
      · exact small
      · rw [same]
        exact lengths a n first ends
    · exact starts
  -- a line of the file has neither break nor zero byte, which bounds each token in it
  · intro noZero a n _ _
    have whole : ∀ line ∈ lines, Unbroken line ∧ ShortRuns line := by
      intro line member
      refine ⟨fun c there => ⟨?_, ?_⟩, pieces line member⟩
      · rintro rfl
        exact source_lines_single file lines read line member there
      · rintro rfl
        exact noZero line member there
    have start := token_within (initScanner lines) (fun text => Unbroken text ∧ ShortRuns text)
      ⟨fun c none_ => (by cases none_), short_runs_nil⟩
      (fun text n both => ⟨fun c there => both.1 c (List.mem_of_mem_drop there),
        short_runs_drop text both.2 n⟩)
      (scanner_within lines _ whole) a
    have bound := short_runs_start _ _ [] start.2 (List.append_nil _).symm start.1
    have less : (initScanner lines).offset a n ≤ ((initScanner lines).token a).start.length :=
      Nat.sub_le _ _
    exact Nat.lt_of_le_of_lt (Nat.le_trans (Nat.mod_le _ _) less) bound

theorem diagnostics_fit_end_label :
    ∃ statement, endLabelProgram.parsed.text[0]? = some statement ∧ FitsBuffer statement := by
  obtain ⟨fits, short⟩ := diagnostics_fit_iff namelessLib archX8664 _ _ endLabelProgram.read _
    endLabelProgram.parses
  have noZero : ∀ line ∈ endLabelProgram.lines, nulChar ∉ line := by decide +kernel
  have some_ : (endLabelProgram.parsed.text[0]?).isSome = true := by decide +kernel
  obtain ⟨statement, found⟩ := Option.isSome_iff_exists.mp some_
  exact ⟨statement, found, fits.mpr (short noZero) statement (List.mem_of_getElem? found)⟩

/-- A line that ends inside an escape, so that its break is cleared with it. -/
def openLine : Text := List.replicate 300 'a' ++ [escChar, '\n']

def joinedLines : Text :=
  "$A = $A #".toList ++ openLine ++ openLine ++ openLine ++ openLine ++ "\nreturn ALLOW\n".toList

def firstStatement (lib : Libseccomp) (localArch : Word) (file : Text) : Option Statement :=
  match sourceLines file with
  | .ok lines =>
      match parser lib localArch lines with
      | some (.ok parsed) => parsed.text.head?
      | _ => none
  | .error _ => none

/-- Four lines whose comment was joined with the first one: the tildes alone overflow. -/
theorem joined_lines_overflow :
    ∃ lines parsed statement, sourceLines joinedLines = .ok lines ∧
      parser namelessLib archX8664 lines = some (.ok parsed) ∧ statement ∈ parsed.text ∧
      ¬ FitsBuffer statement ∧
      ∀ errorMsg, bufferSize < (reportBuffer statement errorMsg).length := by
  have length : (firstStatement namelessLib archX8664 joinedLines).map Statement.lineLen =
      some 1217 := by decide +kernel
  obtain ⟨statement, first, long⟩ := Option.map_eq_some_iff.mp length
  unfold firstStatement at first
  split at first
  · next lines read =>
      split at first
      · next parsed parses =>
          refine ⟨lines, parsed, statement, read, parses, List.mem_of_head? first, ?_, ?_⟩
          · intro fits
            have small := fits.line
            rw [long] at small
            exact absurd small (by decide)
          · intro errorMsg
            simp only [reportBuffer, List.length_append, List.length_replicate, long, bufferSize]
            omega
      · cases first
  · cases first

end Ceccomp
