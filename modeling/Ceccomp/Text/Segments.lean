import Ceccomp.Lib.Run
import Ceccomp.Text.Lines
import Ceccomp.Text.Recovery

/-!
How long the pieces of a line are. What `process_source` leaves of a physical line is shorter
than `MAX_LINE_LEN` and ends at a line break or at a zero, and a token takes in neither.
-/

namespace Ceccomp

def Unbroken (text : Text) : Prop := ∀ c ∈ text, c ≠ '\n' ∧ c ≠ nulChar

/-- Line breaks and zeros cut the text in pieces shorter than `MAX_LINE_LEN`. -/
inductive ShortRuns : Text → Prop where
  | last (run : Text) (unbroken : Unbroken run) (short : run.length < maxLineLen) : ShortRuns run
  | cut (run : Text) (c : Char) (rest : Text) (unbroken : Unbroken run)
      (short : run.length < maxLineLen) (breaks : c = '\n' ∨ c = nulChar) (later : ShortRuns rest) :
      ShortRuns (run ++ c :: rest)

def ClosedRuns (text : Text) : Prop :=
  text = [] ∨ ∃ front c, text = front ++ [c] ∧ (c = '\n' ∨ c = nulChar)

theorem short_runs_nil : ShortRuns [] :=
  .last [] (fun c member => by cases member) (by decide)

theorem unbroken_no_break (text : Text) (c : Char) (unbroken : Unbroken text)
    (breaks : c = '\n' ∨ c = nulChar) : c ∉ text := by
  intro member
  rcases breaks with rfl | rfl
  · exact (unbroken _ member).1 rfl
  · exact (unbroken _ member).2 rfl

theorem short_runs_append (first second : Text) (one : ShortRuns first) (closed : ClosedRuns first)
    (two : ShortRuns second) : ShortRuns (first ++ second) := by
  induction one with
  | last run unbroken short =>
      rcases closed with rfl | ⟨front, c, rfl, breaks⟩
      · exact two
      · exact absurd (by simp) (unbroken_no_break _ c unbroken breaks)
  | cut run c rest unbroken short breaks later ih =>
      rw [List.append_assoc, List.cons_append]
      apply ShortRuns.cut run c _ unbroken short breaks
      apply ih
      rcases closed with none_ | ⟨front, d, same, ends⟩
      · simp at none_
      · by_cases empty : rest = []
        · exact Or.inl empty
        · refine Or.inr ⟨rest.dropLast, d, ?_, ends⟩
          have last := congrArg List.getLast? same
          rw [List.getLast?_append_of_ne_nil _ (by simp), List.getLast?_concat] at last
          obtain ⟨e, more, shape⟩ := List.exists_cons_of_ne_nil empty
          rw [shape, List.getLast?_cons_cons, ← shape] at last
          exact (List.dropLast_append_getLast? d last).symm

theorem short_runs_break (text : Text) (c : Char) (rest : Text) (runs : ShortRuns text)
    (breaks : c = '\n' ∨ c = nulChar) (later : ShortRuns rest) : ShortRuns (text ++ c :: rest) := by
  induction runs with
  | last run unbroken short => exact .cut run c rest unbroken short breaks later
  | cut run d more unbroken short ends _ ih =>
      rw [List.append_assoc, List.cons_append]
      exact .cut run d _ unbroken short ends ih

theorem short_runs_tail (text : Text) (runs : ShortRuns text) : ShortRuns text.tail := by
  cases runs with
  | last _ unbroken short =>
      apply ShortRuns.last
      · exact fun c member => unbroken c (List.mem_of_mem_tail member)
      · rw [List.length_tail]
        exact Nat.lt_of_le_of_lt (Nat.sub_le _ _) short
  | cut run c rest unbroken short breaks later =>
      cases run with
      | nil => exact later
      | cons d run =>
          apply ShortRuns.cut run c rest _ _ breaks later
          · exact fun e member => unbroken e (List.mem_cons_of_mem d member)
          · exact Nat.lt_of_succ_lt short

theorem short_runs_drop (text : Text) (runs : ShortRuns text) (n : Nat) : ShortRuns (text.drop n) := by
  induction n with
  | zero => exact runs
  | succ n ih =>
      rw [← List.tail_drop]
      exact short_runs_tail _ ih

theorem short_runs_take (text : Text) (runs : ShortRuns text) (n : Nat) : ShortRuns (text.take n) := by
  induction runs generalizing n with
  | last run unbroken short =>
      apply ShortRuns.last
      · exact fun c member => unbroken c (List.mem_of_mem_take member)
      · exact Nat.lt_of_le_of_lt (List.length_take_le' _ _) short
  | cut run c rest unbroken short breaks later ih =>
      by_cases inside : n ≤ run.length
      · rw [List.take_append_of_le_length inside]
        apply ShortRuns.last
        · exact fun d member => unbroken d (List.mem_of_mem_take member)
        · exact Nat.lt_of_le_of_lt (List.length_take_le' _ _) short
      · obtain ⟨m, rfl⟩ := Nat.exists_eq_add_of_lt (Nat.lt_of_not_le inside)
        rw [Nat.add_assoc, List.take_length_add_append, List.take_succ_cons]
        exact .cut run c _ unbroken short breaks (ih m)

theorem short_runs_start (text piece rest : Text) (runs : ShortRuns text)
    (starts : text = piece ++ rest) (unbroken : Unbroken piece) : piece.length < maxLineLen := by
  cases runs with
  | last _ _ short =>
      rw [starts, List.length_append] at short
      omega
  | cut run c later _ short breaks _ =>
      rcases List.append_eq_append_iff.mp starts with ⟨more, rfl, same⟩ | ⟨more, rfl, _⟩
      · cases more with
        | nil => simpa using short
        | cons d more =>
            rw [List.cons_append, List.cons.injEq] at same
            exact absurd (by simp [same.1]) (unbroken_no_break _ c unbroken breaks)
      · rw [List.length_append] at short
        omega

theorem zeros_short (n : Nat) : ShortRuns (List.replicate n nulChar) := by
  induction n with
  | zero => exact short_runs_nil
  | succ n ih =>
      rw [List.replicate_succ, ← List.nil_append (_ :: _)]
      exact .cut [] nulChar _ (fun c member => by cases member) (by decide) (Or.inr rfl) ih

theorem zeros_closed (n : Nat) (front : Text) (closed : ClosedRuns front) :
    ClosedRuns (front ++ List.replicate n nulChar) := by
  cases n with
  | zero =>
      rw [List.replicate_zero, List.append_nil]
      exact closed
  | succ n =>
      rw [List.replicate_succ', ← List.append_assoc]
      exact Or.inr ⟨_, nulChar, rfl, Or.inr rfl⟩

theorem short_runs_piece (done piece : Text) (c : Char) (zeros : Nat) (before : ShortRuns done)
    (closed : ClosedRuns done) (unbroken : Unbroken piece) (short : piece.length < maxLineLen)
    (breaks : c = '\n' ∨ c = nulChar) :
    ShortRuns (done ++ (piece ++ c :: List.replicate zeros nulChar)) ∧
      ClosedRuns (done ++ (piece ++ c :: List.replicate zeros nulChar)) := by
  constructor
  · exact short_runs_append done _ before closed
      (.cut piece c _ unbroken short breaks (zeros_short zeros))
  · have ends : ClosedRuns (done ++ piece ++ [c]) := Or.inr ⟨_, c, rfl, breaks⟩
    have more := zeros_closed zeros _ ends
    simpa using more

theorem kept_unbroken (text kept : Text) (part : kept.Sublist text) (unbroken : Unbroken text)
    (short : text.length < maxLineLen) : Unbroken kept ∧ kept.length < maxLineLen :=
  ⟨fun c member => unbroken c (part.subset member), Nat.lt_of_le_of_lt part.length_le short⟩

theorem close_line_short (fileType : FileType) (done line : Text) (before : ShortRuns done)
    (closed : ClosedRuns done) (unbroken : Unbroken line) (short : line.length < maxLineLen) :
    ShortRuns (closeLine fileType done line) ∧ ClosedRuns (closeLine fileType done line) := by
  have body : Unbroken (lineBody fileType line) ∧ (lineBody fileType line).length < maxLineLen := by
    cases fileType with
    | windows => exact kept_unbroken line _ (List.dropLast_sublist line) unbroken short
    | unix | macos => exact ⟨unbroken, short⟩
  have part : (withoutSpans (lineBody fileType line)).Sublist (lineBody fileType line) := by
    rw [← clear_loop_spans]
    exact clear_loop_sublist false _
  obtain ⟨kept, small⟩ := kept_unbroken _ _ part body.1 body.2
  cases opened : spanOpen false (lineBody fileType line) with
  | true =>
      obtain ⟨zeros, same⟩ := close_line_open fileType done line opened
      rw [same, List.append_assoc, List.replicate_succ]
      exact short_runs_piece done _ nulChar zeros before closed kept small (Or.inr rfl)
  | false =>
      obtain ⟨zeros, _, same⟩ := close_line_whole fileType done line opened
      rw [same]
      by_cases empty : fileType = .windows ∧ line = []
      · -- the break takes the place of the last character that was there
        rw [if_pos empty]
        have nothing : withoutSpans (lineBody fileType line) = [] := by
          obtain ⟨rfl, rfl⟩ := empty
          rw [← clear_loop_spans]
          rfl
        have cut : ShortRuns done.dropLast := by
          rw [List.dropLast_eq_take]
          exact short_runs_take done before _
        rw [nothing, List.nil_append]
        have ends : ClosedRuns (done.dropLast ++ ['\n']) := Or.inr ⟨_, '\n', rfl, Or.inl rfl⟩
        constructor
        · exact short_runs_break _ '\n' _ cut (Or.inl rfl) (zeros_short zeros)
        · simpa using zeros_closed zeros _ ends
      · rw [if_neg empty]
        exact short_runs_piece done _ '\n' zeros before closed kept small (Or.inl rfl)

theorem process_loop_short (fileType : FileType) (lf : Char) (fuel : Nat) (done : Text)
    (lineNr : Nat) (rest : Text) (before : ShortRuns done) (closed : ClosedRuns done)
    (enough : rest.length < fuel) (breaks : lf = '\n' ∨ '\n' ∉ rest) (noZero : nulChar ∉ rest)
    (source : Text) (last : Nat)
    (processed : processLoop fileType lf fuel done lineNr rest = .ok (source, last)) :
    ShortRuns source := by
  induction fuel generalizing done lineNr rest with
  | zero => exact absurd enough (Nat.not_lt_zero _)
  | succ fuel ih =>
      unfold processLoop at processed
      cases found : (rest.take maxLineLen).idxOf? lf with
      | some lineBreak =>
          simp only [found] at processed
          obtain ⟨single, split⟩ := break_split lf rest maxLineLen lineBreak found
          -- a terminated line is shorter than `MAX_LINE_LEN`, or its break would not have been found
          have low : lineBreak < maxLineLen := by
            obtain ⟨inside, _⟩ := List.idxOf?_eq_some_iff.mp found
            rw [List.length_take] at inside
            omega
          have unbroken : Unbroken (rest.take lineBreak) := by
            intro c member
            have there := List.mem_of_mem_take member
            refine ⟨?_, fun zero => noZero (zero ▸ there)⟩
            rcases breaks with rfl | absent
            · exact fun same => single (same ▸ member)
            · exact fun same => absent (same ▸ there)
          have short : (rest.take lineBreak).length < maxLineLen :=
            Nat.lt_of_le_of_lt (List.length_take_le _ _) low
          obtain ⟨more, ends⟩ := close_line_short fileType done _ before closed unbroken short
          have less : (rest.drop (lineBreak + 1)).length < rest.length := by
            conv => rhs; rw [split]
            simp only [List.length_append, List.length_cons]
            omega
          apply ih _ _ _ more ends _ _ _ processed
          · omega
          · exact breaks.imp_right fun absent member => absent (List.mem_of_mem_drop member)
          · exact fun member => noZero (List.mem_of_mem_drop member)
      | none =>
          simp only [found] at processed
          split at processed
          · cases processed
          · next small =>
              split at processed
              · cases processed
              · simp only [Except.ok.injEq, Prod.mk.injEq] at processed
                have short := Nat.lt_of_not_le small
                have whole : rest.take maxLineLen = rest := List.take_of_length_le (Nat.le_of_lt short)
                have unbroken : Unbroken rest := by
                  intro c member
                  refine ⟨?_, fun zero => noZero (zero ▸ member)⟩
                  rcases breaks with rfl | absent
                  · rw [whole] at found
                    exact fun same => List.idxOf?_eq_none_iff.mp found (same ▸ member)
                  · exact fun same => absent (same ▸ member)
                obtain ⟨kept, few⟩ := kept_unbroken rest _ (clear_loop_sublist false rest) unbroken
                  short
                rw [← processed.1, clear_color_padded]
                -- the last line, and zeros up to where it ended
                apply short_runs_append done _ before closed
                cases rest.length - (clearLoop false rest).length with
                | zero =>
                    rw [List.replicate_zero, List.append_nil]
                    exact .last _ kept few
                | succ n =>
                    rw [List.replicate_succ]
                    exact .cut _ nulChar _ kept few (Or.inr rfl) (zeros_short n)

theorem next_lines_short (fuel : Nat) (source : Text) (runs : ShortRuns source) :
    ∀ line ∈ nextLines fuel source, ShortRuns line := by
  induction fuel generalizing source with
  | zero =>
      intro line member
      cases member
  | succ fuel ih =>
      intro line member
      unfold nextLines at member
      split at member
      · cases member
      · next first others =>
          split at member
          · rw [List.mem_singleton.mp member]
            exact runs
          · next lineBreak _ =>
              rcases List.mem_cons.mp member with rfl | later
              · exact short_runs_take _ runs lineBreak
              · apply ih _ _ line later
                have behind := short_runs_drop _ runs (lineBreak + 1)
                have part := List.dropWhile_suffix (· == nulChar)
                  (l := (first :: others).drop (lineBreak + 1))
                rw [List.suffix_iff_eq_drop.mp part]
                exact short_runs_drop _ behind _

theorem next_lines_single (fuel : Nat) (source : Text) : ∀ line ∈ nextLines fuel source, '\n' ∉ line := by
  induction fuel generalizing source with
  | zero =>
      intro line member
      cases member
  | succ fuel ih =>
      intro line member
      unfold nextLines at member
      split at member
      · cases member
      · next first others =>
          split at member
          · next none_ =>
              rw [List.mem_singleton.mp member]
              exact List.idxOf?_eq_none_iff.mp none_
          · next lineBreak found =>
              rcases List.mem_cons.mp member with rfl | later
              · intro there
                obtain ⟨i, inside, same⟩ := List.mem_iff_getElem.mp there
                rw [List.length_take] at inside
                rw [List.getElem_take] at same
                exact (List.idxOf?_eq_some_iff.mp found).2.2 i (by omega) same
              · exact ih _ line later

theorem source_lines_single (file : Text) (lines : List Text)
    (read : sourceLines file = .ok lines) : ∀ line ∈ lines, '\n' ∉ line := by
  unfold sourceLines at read
  cases init : initSource file with
  | error message =>
      rw [init] at read
      cases read
  | ok source =>
      rw [init] at read
      cases read
      exact next_lines_single _ source

theorem source_lines_short (file : Text) (lines : List Text)
    (read : sourceLines file = .ok lines) : ∀ line ∈ lines, ShortRuns line := by
  unfold sourceLines at read
  cases init : initSource file with
  | error message =>
      rw [init] at read
      cases read
  | ok source =>
      rw [init] at read
      cases read
      apply next_lines_short
      unfold initSource at init
      split at init
      · cases init
      · split at init
        · cases init
        · next noZero =>
            cases detected : detectFileType file with
            | error message =>
                rw [detected] at init
                cases init
            | ok type =>
                rw [detected] at init
                cases processed : processLoop type.1 type.2 (file.length + 1) [] 1 file with
                | error message => simp [processed, Except.map] at init
                | ok result =>
                    simp only [processed, Except.map, Except.ok.injEq] at init
                    subst init
                    exact process_loop_short type.1 type.2 _ [] 1 file short_runs_nil (Or.inl rfl)
                      (Nat.lt_succ_self _) (detected_breaks file type.1 type.2 detected)
                      (by simpa using noZero) result.1 result.2 processed

/-- What is left of the line has the property, and so have the lines to come. -/
def Scanner.Within (scanner : Scanner) (holds : Text → Prop) : Prop :=
  (∀ rest, scanner.rest = some rest → holds rest) ∧ ∀ line ∈ scanner.lines, holds line

theorem within_drop_spaces (holds : Text → Prop) (closed : ∀ text n, holds text → holds (text.drop n))
    (text : Text) (own : holds text) : holds (text.dropWhile isSpace) := by
  rw [List.suffix_iff_eq_drop.mp (List.dropWhile_suffix isSpace)]
  exact closed text _ own

theorem within_next (scanner : Scanner) (holds : Text → Prop)
    (closed : ∀ text n, holds text → holds (text.drop n)) (within : scanner.Within holds) :
    (scanToken scanner).2.Within holds := by
  obtain ⟨here, later⟩ := within
  cases scan_token_step scanner with
  | ended done type same =>
      rw [same]
      exact ⟨here, later⟩
  | lineEnd rest at_ type moved =>
      rw [moved]
      constructor
      · intro line first
        exact later line (List.mem_of_head? first)
      · intro line member
        exact later line (List.mem_of_mem_tail member)
  | taken rest len at_ type positive more moved =>
      rw [moved]
      refine ⟨fun other same => ?_, later⟩
      cases same
      exact closed _ len (within_drop_spaces holds closed rest (here rest at_))
  | unknown rest at_ type few more moved =>
      rw [moved]
      refine ⟨fun other same => ?_, later⟩
      cases same
      exact closed _ 1 (within_drop_spaces holds closed rest (here rest at_))
  | gaveUp rest at_ type many more noComment foreign moved =>
      rw [moved]
      refine ⟨fun other same => ?_, later⟩
      cases same
      exact within_drop_spaces holds closed rest (here rest at_)

theorem scan_start (scanner : Scanner) :
    (scanToken scanner).1.start = (scanner.rest.getD []).dropWhile isSpace := by
  unfold scanToken
  cases scanner.rest with
  | none => rfl
  | some rest =>
      dsimp only [Option.getD_some]
      split
      · rfl
      · split
        · rfl
        · split
          · rfl
          · split <;> rfl

theorem token_within (scanner : Scanner) (holds : Text → Prop) (nothing : holds [])
    (closed : ∀ text n, holds text → holds (text.drop n)) (within : scanner.Within holds) (n : Nat) :
    holds (scanner.token n).start := by
  have along : (scanner.after n).Within holds := by
    induction n with
    | zero => exact within
    | succ n ih => exact within_next _ holds closed ih
  rw [Scanner.token, scan_start]
  cases here : (scanner.after n).rest with
  | none => exact nothing
  | some rest => exact within_drop_spaces holds closed rest (along.1 rest here)

theorem unbroken_append (first second : Text) (one : Unbroken first) (two : Unbroken second) :
    Unbroken (first ++ second) := by
  intro c member
  exact (List.mem_append.mp member).elim (one c) (two c)

theorem unbroken_while (p : Char → Bool) (text : Text) (feed : p '\n' = false)
    (zero : p nulChar = false) : Unbroken (text.takeWhile p) := by
  intro c member
  have inside := List.mem_takeWhile_imp member
  constructor
  · rintro rfl
    rw [feed] at inside
    cases inside
  · rintro rfl
    rw [zero] at inside
    cases inside

theorem unbroken_peeks (text : Text) (len : Nat)
    (peeks : ∀ i < len, peekAt text i ≠ '\n' ∧ peekAt text i ≠ nulChar) :
    Unbroken (text.take len) := by
  intro c member
  obtain ⟨i, inside, rfl⟩ := List.mem_iff_getElem.mp member
  rw [List.length_take] at inside
  have known := peeks i (by omega)
  unfold peekAt at known
  rw [List.getD_eq_getElem?_getD, List.getElem?_eq_getElem (by omega), Option.getD_some] at known
  rw [List.getElem_take]
  exact known

theorem spelling_unbroken (type : TokenType) : Unbroken type.spelling := by
  cases type <;> simp [Unbroken, TokenType.spelling, TokenType.pair, nulChar]

theorem spelled_unbroken (type : TokenType) (text : Text)
    (spelled : type.spelling.isPrefixOf text = true) :
    Unbroken (text.take type.spelling.length) := by
  rw [← List.prefix_iff_eq_take.mp (List.isPrefixOf_iff_prefix.mp spelled)]
  exact spelling_unbroken type

theorem range_unbroken (range : List TokenType) (text : Text) (type : TokenType) (len : Nat)
    (found : matchTokenRange range text = some (type, len)) : Unbroken (text.take len) := by
  obtain ⟨token, first, same⟩ := Option.map_eq_some_iff.mp found
  cases same
  have spelled := List.find?_some first
  unfold matchToken at spelled
  rw [Bool.and_eq_true] at spelled
  exact spelled_unbroken type text spelled.1

theorem arch_unbroken (text : Text) (type : TokenType) (len : Nat)
    (found : scanArch text = some (type, len)) : Unbroken (text.take len) := by
  unfold scanArch at found
  dsimp only at found
  split at found
  · next known =>
      cases found
      apply spelled_unbroken
      have spelled := known.1
      unfold strToInternalArch at spelled ⊢
      cases text with
      | nil => exact absurd rfl spelled
      | cons first rest =>
          dsimp only at spelled ⊢
          cases tried : (archsTried first).find?
              (fun arch => arch.spelling.isPrefixOf (first :: rest)) with
          | none => simp [tried] at spelled
          | some arch =>
              have prefixes := List.find?_some tried
              exact prefixes
  · cases found

theorem word_unbroken (text : Text) : Unbroken (text.take (scanWord text).2) := by
  have word := unbroken_while isIdentifier text (by decide) (by decide)
  unfold scanWord
  dsimp only
  split
  · next colon =>
      rw [List.take_add, take_while_taken]
      apply unbroken_append _ _ word
      apply unbroken_peeks
      intro i below
      have first : peekAt (text.drop (text.takeWhile isIdentifier).length) i = ':' := by
        rw [Nat.lt_one_iff.mp below, ← colon]
        simp [peekAt, List.getD_eq_getElem?_getD]
      rw [first]
      decide
  · rw [take_while_taken]
    exact word

theorem digit_unbroken (base : Nat) :
    isDigitIn base '\n' = false ∧ isDigitIn base nulChar = false :=
  ⟨rfl, rfl⟩

theorem number_unbroken (text : Text) : Unbroken (text.take (strtoul text).2) := by
  have digits (base : Nat) (text : Text) : Unbroken (text.takeWhile (isDigitIn base)) :=
    unbroken_while _ text (digit_unbroken base).1 (digit_unbroken base).2
  unfold strtoul
  dsimp only
  split
  · next zero =>
      split
      · next hex =>
          rw [Nat.add_comm, List.take_add, take_while_taken]
          refine unbroken_append _ _ (unbroken_peeks text 2 fun i below => ?_) (digits 16 _)
          rcases Nat.lt_succ_iff_lt_or_eq.mp below with first | rfl
          · rw [Nat.lt_one_iff.mp first, zero]
            decide
          · rcases hex.1 with x | x
            · rw [x]
              decide
            · rw [x]
              decide
      · rw [take_while_taken]
        exact digits 8 text
  · rw [take_while_taken]
    exact digits 10 text

theorem punct_unbroken (text : Text) (type : TokenType) (len : Nat)
    (found : scanPunct text = some (type, len)) : Unbroken (text.take len) := by
  unfold scanPunct at found
  split at found
  all_goals first
    | (cases found; done)
    | exact range_unbroken _ text type len found
    | (cases found
       apply unbroken_peeks
       intro i below
       have small : i = 0 ∨ i = 1 ∨ i = 2 := by omega
       rcases small with rfl | rfl | rfl <;> simp_all [nulChar])

theorem lexeme_unbroken (text : Text) (type : TokenType) (len : Nat) (data : Word)
    (found : scanLexeme text = some (type, len, data)) (fits : type ≠ .overflowNumber) :
    Unbroken (text.take len) := by
  unfold scanLexeme at found
  dsimp only at found
  split at found
  · next type' len' reserved =>
      cases found
      split at reserved
      · rcases Option.or_eq_some_iff.mp reserved with word | ⟨_, arch⟩
        · exact range_unbroken _ text _ _ word
        · exact arch_unbroken text _ _ arch
      · split at reserved
        · exact range_unbroken _ text _ _ reserved
        · cases reserved
  · split at found
    · cases found
      exact word_unbroken text
    · split at found
      · split at found
        · cases found
          exact absurd rfl fits
        · cases found
          exact number_unbroken text
      · obtain ⟨⟨punct, width⟩, scanned, same⟩ := Option.map_eq_some_iff.mp found
        cases same
        exact punct_unbroken text _ _ scanned

theorem token_unbroken (scanner : Scanner) (n : Nat) (asked : (scanner.token n).type ∉ refused) :
    ∃ piece, (scanner.token n).start = piece ++ (scanner.token (n + 1)).start ∧ Unbroken piece := by
  have next : (scanner.token (n + 1)).start =
      ((scanToken (scanner.after n)).2.rest.getD []).dropWhile isSpace := scan_start _
  rw [next]
  unfold Scanner.token at asked ⊢
  revert asked
  unfold scanToken
  cases (scanner.after n).rest with
  | none => exact fun asked => absurd (by simp [refused]) asked
  | some rest =>
      dsimp only
      by_cases blank : rest.dropWhile isSpace = []
      · rw [if_pos blank]
        exact fun asked => absurd (by simp [refused]) asked
      · rw [if_neg blank]
        by_cases comment : peekAt (rest.dropWhile isSpace) 0 = '#'
        · rw [if_pos comment]
          exact fun asked => absurd (by simp [refused]) asked
        · rw [if_neg comment]
          cases scanned : scanLexeme (rest.dropWhile isSpace) with
          | none =>
              dsimp only
              split
              · exact fun asked => absurd (by simp [refused]) asked
              · exact fun asked => absurd (by simp [refused]) asked
          | some lexeme =>
              obtain ⟨type, len, data⟩ := lexeme
              intro asked
              dsimp only at asked ⊢
              have fits : type ≠ .overflowNumber := fun same => asked (by rw [same]; decide)
              have taken := lexeme_unbroken _ type len data scanned fits
              have blanks := unbroken_while isSpace ((rest.dropWhile isSpace).drop len) (by decide)
                (by decide)
              refine ⟨_, ?_, unbroken_append _ _ taken blanks⟩
              rw [Option.getD_some, List.append_assoc, List.takeWhile_append_dropWhile,
                List.take_append_drop]

/-- The distance between two tokens of a line. -/
def Scanner.offset (scanner : Scanner) (a n : Nat) : Nat :=
  (scanner.token a).start.length - (scanner.token n).start.length

/-- As long as rules asked for the tokens, the next one is not far behind the first. -/
theorem offset_short (scanner : Scanner) (short : scanner.Within ShortRuns) (a n : Nat) (order : a ≤ n)
    (asked : ∀ i, a ≤ i → i < n → (scanner.token i).type ∉ refused) :
    scanner.offset a n < maxLineLen := by
  have piece : ∃ piece, (scanner.token a).start = piece ++ (scanner.token n).start ∧
      Unbroken piece := by
    induction n with
    | zero =>
        rw [Nat.le_zero.mp order]
        exact ⟨[], rfl, fun c member => by cases member⟩
    | succ n ih =>
        rcases Nat.lt_or_ge n a with less | more
        · have same : a = n + 1 := Nat.le_antisymm order less
          rw [same]
          exact ⟨[], rfl, fun c member => by cases member⟩
        · obtain ⟨front, first, one⟩ := ih more fun i low below => asked i low (Nat.lt_succ_of_lt below)
          obtain ⟨back, second, two⟩ := token_unbroken scanner n (asked n more (Nat.lt_succ_self n))
          exact ⟨front ++ back, by rw [first, second, List.append_assoc], unbroken_append _ _ one two⟩
  obtain ⟨piece, same, unbroken⟩ := piece
  have bound := short_runs_start _ piece _
    (token_within scanner ShortRuns short_runs_nil (fun text n runs => short_runs_drop text runs n) short a) same unbroken
  unfold Scanner.offset
  rw [same, List.length_append]
  omega

theorem comment_ends (scanner : Scanner) (n : Nat) (comment : (scanner.token n).type = .comment) :
    (scanner.token (n + 1)).type = .eol := by
  have rest : (scanner.after (n + 1)).rest = some [] := by
    change (scanToken (scanner.after n)).2.rest = some []
    unfold Scanner.token at comment
    revert comment
    unfold scanToken
    cases (scanner.after n).rest with
    | none => nofun
    | some rest =>
        dsimp only
        split
        · nofun
        · split
          · exact fun _ => rfl
          · split
            · next type len data scanned =>
                intro same
                have types := scan_lexeme_types _ type len data scanned
                exact absurd (by rw [show type = .comment from same]; decide) types
            · split <;> nofun
  unfold Scanner.token scanToken
  rw [rest]
  rfl

end Ceccomp
