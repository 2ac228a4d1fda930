import Ceccomp.Text.Actions

/-!
Scanning makes progress: every token consumes a character of the line, ends the
line or ends the input, and no action of the parser goes past the end of more than
the lines there are.
-/

namespace Ceccomp

theorem match_range_length (range : List TokenType) (text : Text) (type : TokenType) (len : Nat)
    (found : matchTokenRange range text = some (type, len)) : 0 < len := by
  obtain ⟨token, _, same⟩ := Option.map_eq_some_iff.mp found
  cases same
  exact List.length_pos_iff.mpr (spelling_nonempty type)

theorem match_range_member (range : List TokenType) (text : Text) (type : TokenType) (len : Nat)
    (found : matchTokenRange range text = some (type, len)) : type ∈ range := by
  obtain ⟨token, first, same⟩ := Option.map_eq_some_iff.mp found
  cases same
  exact List.mem_of_find?_eq_some first

theorem scan_arch_length (text : Text) (type : TokenType) (len : Nat)
    (found : scanArch text = some (type, len)) : 0 < len := by
  unfold scanArch at found
  dsimp only at found
  split at found
  · cases found
    exact List.length_pos_iff.mpr (spelling_nonempty _)
  · cases found

theorem scan_punct_length (text : Text) (type : TokenType) (len : Nat)
    (found : scanPunct text = some (type, len)) : 0 < len := by
  unfold scanPunct at found
  split at found
  all_goals first
    | (cases found; done)
    | (cases found; exact Nat.zero_lt_succ _)
    | exact match_range_length _ _ _ _ found

theorem take_while_head (p : Char → Bool) (text : Text) (first : p (peekAt text 0) = true)
    (nonempty : text ≠ []) : 0 < (text.takeWhile p).length := by
  cases text with
  | nil => exact absurd rfl nonempty
  | cons c rest =>
      have head : p c = true := first
      simp [head]

theorem scan_word_length (text : Text) (nonempty : text ≠ []) (first : (peekAt text 0).isAlpha = true) :
    0 < (scanWord text).2 := by
  have word := take_while_head isIdentifier text (by simp [isIdentifier, Char.isAlphanum, first]) nonempty
  unfold scanWord
  dsimp only
  split
  · exact Nat.zero_lt_succ _
  · exact word

theorem digit_in_ten (c : Char) (digit : c.isDigit = true) : isDigitIn 10 c = true := by
  have bounds := digit
  simp only [Char.isDigit, Bool.and_eq_true, decide_eq_true_eq] at bounds
  have high : c.toNat ≤ 57 := bounds.2
  simp only [isDigitIn, digitValue, digit, if_true, decide_eq_true_eq]
  have zero : '0'.toNat = 48 := rfl
  omega

theorem strtoul_length (text : Text) (nonempty : text ≠ []) (first : (peekAt text 0).isDigit = true) :
    0 < (strtoul text).2 := by
  unfold strtoul
  dsimp only
  split
  · next zero =>
      split
      · exact Nat.zero_lt_succ _
      · exact take_while_head _ _ (by rw [zero]; decide) nonempty
  · exact take_while_head _ _ (digit_in_ten _ first) nonempty

theorem scan_lexeme_length (text : Text) (nonempty : text ≠ []) (type : TokenType) (len : Nat)
    (data : Word) (found : scanLexeme text = some (type, len, data)) : 0 < len := by
  unfold scanLexeme at found
  dsimp only at found
  split at found
  · next type' len' reserved =>
      cases found
      split at reserved
      · rcases Option.or_eq_some_iff.mp reserved with word | ⟨_, arch⟩
        · exact match_range_length _ _ _ _ word
        · exact scan_arch_length _ _ _ arch
      · split at reserved
        · exact match_range_length _ _ _ _ reserved
        · cases reserved
  · split at found
    · next alpha =>
        cases found
        exact scan_word_length text nonempty alpha
    · split at found
      · next digit =>
          split at found
          · cases found
            exact Nat.one_pos
          · cases found
            exact strtoul_length text nonempty digit
      · obtain ⟨⟨punct, width⟩, scanned, same⟩ := Option.map_eq_some_iff.mp found
        cases same
        exact scan_punct_length _ _ _ scanned

def markers : List TokenType := [.eol, .tokenEof, .comment, .unknown]

theorem str_to_internal_arch_range (str : Text) (known : strToInternalArch str ≠ .unknown) :
    (strToInternalArch str).fromTo .archX86 .archSh = true := by
  unfold strToInternalArch at known ⊢
  cases str with
  | nil => exact absurd rfl known
  | cons first rest =>
      dsimp only at known ⊢
      cases found : (archsTried first).find? (fun arch => arch.spelling.isPrefixOf (first :: rest)) with
      | none => simp [found] at known
      | some arch =>
          have member := List.mem_of_find?_eq_some found
          unfold archsTried at member
          dsimp only
          split at member <;>
            simp only [List.mem_cons, List.not_mem_nil, or_false] at member <;>
            revert member <;> cases arch <;> decide

theorem scan_punct_types (text : Text) (type : TokenType) (len : Nat)
    (found : scanPunct text = some (type, len)) : type ∉ markers := by
  unfold scanPunct at found
  split at found
  all_goals first
    | (cases found; done)
    | (cases found; decide)
    | (have member := match_range_member _ _ _ _ found
       revert member
       clear found
       cases type <;> decide)

theorem scan_lexeme_types (text : Text) (type : TokenType) (len : Nat) (data : Word)
    (found : scanLexeme text = some (type, len, data)) : type ∉ markers := by
  unfold scanLexeme at found
  dsimp only at found
  split at found
  · next type' len' reserved =>
      cases found
      split at reserved
      · rcases Option.or_eq_some_iff.mp reserved with word | ⟨_, arch⟩
        · have member := match_range_member _ _ _ _ word
          clear reserved word
          revert member
          cases type <;> decide
        · unfold scanArch at arch
          dsimp only at arch
          split at arch
          · next known =>
              cases arch
              have inside := str_to_internal_arch_range text known.1
              clear reserved known
              revert inside
              cases strToInternalArch text <;> decide
          · cases arch
      · split at reserved
        · have member := match_range_member _ _ _ _ reserved
          clear reserved
          revert member
          cases type <;> decide
        · cases reserved
  · split at found
    · cases found
      unfold scanWord
      dsimp only
      split <;> simp [markers]
    · split at found
      · split at found <;> cases found <;> decide
      · obtain ⟨⟨punct, width⟩, scanned, same⟩ := Option.map_eq_some_iff.mp found
        cases same
        exact scan_punct_types _ _ _ scanned

theorem scanned_identifier (scanner : Scanner) (word : (scanToken scanner).1.type = .identifier) :
    (scanToken scanner).1.text ≠ [] := by
  unfold scanToken at word ⊢
  split at word
  · cases word
  · next rest _ =>
      dsimp only at word ⊢
      by_cases nonempty : rest.dropWhile isSpace = []
      · simp [nonempty] at word
      · simp only [nonempty, if_false] at word ⊢
        split at word
        · cases word
        · next comment =>
            simp only [comment, if_false]
            cases scanned : scanLexeme (rest.dropWhile isSpace) with
            | none =>
                simp only [scanned] at word
                split at word <;> cases word
            | some lexeme =>
                obtain ⟨type, len, data⟩ := lexeme
                have positive := scan_lexeme_length _ nonempty type len data scanned
                simp [Token.text, List.take_eq_nil_iff, nonempty]
                omega

/-- What is left of the current line. -/
def Scanner.chars (scanner : Scanner) : Nat :=
  match scanner.rest with
  | some rest => rest.length
  | none => 0

/-- Line ends the scanner has yet to see. -/
def Scanner.lineEnds (scanner : Scanner) : Nat :=
  scanner.lines.length + (if scanner.rest.isSome then 1 else 0)

def isEol (type : TokenType) : Nat := if type = .eol then 1 else 0

def Tokens.pending (tokens : Tokens) : Nat := tokens.scanner.lineEnds + isEol tokens.next.type

theorem scan_token_progress (scanner : Scanner) :
    (scanToken scanner).2.lineEnds + isEol (scanToken scanner).1.type = scanner.lineEnds ∧
      ((scanToken scanner).1.type = .eol ∨ (scanToken scanner).1.type = .tokenEof ∨
        (scanToken scanner).2.chars < scanner.chars) := by
  unfold scanToken Scanner.lineEnds Scanner.chars
  cases here : scanner.rest with
  | none => simp [here, isEol]
  | some rest =>
      dsimp only
      have shorter : (rest.dropWhile isSpace).length ≤ rest.length :=
        (List.dropWhile_sublist isSpace).length_le
      by_cases blank : rest.dropWhile isSpace = []
      · have ends : scanner.lines.tail.length + (if scanner.lines.head?.isSome then 1 else 0) =
            scanner.lines.length := by
          cases scanner.lines with
          | nil => rfl
          | cons line later => simp
        refine ⟨?_, Or.inl (by simp only [blank, if_true])⟩
        simp only [blank, if_true, isEol, Option.isSome_some]
        omega
      · have some_ : 0 < (rest.dropWhile isSpace).length := List.length_pos_iff.mpr blank
        simp only [blank, if_false]
        split
        · exact ⟨by simp [isEol], Or.inr (Or.inr (by simp; omega))⟩
        · cases scanned : scanLexeme (rest.dropWhile isSpace) with
          | some lexeme =>
              obtain ⟨type, len, data⟩ := lexeme
              have positive := scan_lexeme_length _ blank type len data scanned
              have types := scan_lexeme_types _ type len data scanned
              simp only [markers, List.mem_cons, not_or] at types
              refine ⟨?_, Or.inr (Or.inr ?_)⟩
              · simp [isEol, types.1]
              · simp only [List.length_drop]
                omega
          | none =>
              dsimp only
              split
              · exact ⟨by simp [isEol], Or.inr (Or.inl rfl)⟩
              · refine ⟨by simp [isEol], Or.inr (Or.inr ?_)⟩
                simp only [List.length_drop]
                omega

theorem advance_pending (tokens : Tokens) :
    tokens.advance.pending + isEol tokens.next.type = tokens.pending := by
  have scanned := (scan_token_progress tokens.scanner).1
  simp only [Tokens.pending, Tokens.advance]
  omega

theorem reaches_pending (start tokens : Tokens) (reached : start.Reaches tokens) :
    tokens.pending ≤ start.pending := by
  induction reached with
  | here => exact Nat.le_refl _
  | advance tokens _ ih =>
      have step := advance_pending tokens
      omega

/-- A line is over: its end was consumed, or the input has ended. -/
def Tokens.LineOver (start tokens : Tokens) : Prop :=
  tokens.pending < start.pending ∨ (tokens.pending ≤ start.pending ∧ tokens.next.type = .tokenEof)

theorem line_over_later (start middle tokens : Tokens) (reached : start.Reaches middle)
    (ended : middle.LineOver tokens) : start.LineOver tokens := by
  have less := reaches_pending start middle reached
  rcases ended with fewer | ⟨same, eof⟩
  · exact Or.inl (by omega)
  · exact Or.inr ⟨by omega, eof⟩

theorem eol_over (tokens : Tokens) (eol : tokens.next.type = .eol) : tokens.LineOver tokens.advance := by
  have step := advance_pending tokens
  simp only [isEol, eol, if_true] at step
  exact Or.inl (by omega)

def Tokens.turns (tokens : Tokens) : Nat :=
  if tokens.next.type = .eol ∨ tokens.next.type = .tokenEof then 1 else tokens.scanner.chars + 2

theorem turns_advance (tokens : Tokens)
    (inside : ¬ (tokens.next.type = .eol ∨ tokens.next.type = .tokenEof)) :
    tokens.advance.turns < tokens.turns := by
  have scanned := (scan_token_progress tokens.scanner).2
  unfold Tokens.turns
  rw [if_neg inside]
  by_cases ends : tokens.advance.next.type = .eol ∨ tokens.advance.next.type = .tokenEof
  · rw [if_pos ends]
    omega
  · rw [if_neg ends]
    rcases scanned with eol | eof | shorter
    · exact absurd (Or.inl eol) ends
    · exact absurd (Or.inr eof) ends
    · exact Nat.add_lt_add_right shorter 2

theorem sync_over (fuel : Nat) (tokens : Tokens) (enough : tokens.turns ≤ fuel) :
    tokens.LineOver (tokens.sync fuel) := by
  induction fuel generalizing tokens with
  | zero =>
      unfold Tokens.turns at enough
      split at enough <;> omega
  | succ fuel ih =>
      unfold Tokens.sync
      split
      · next eol => exact eol_over tokens eol
      · next notEol =>
          split
          · next eof => exact Or.inr ⟨Nat.le_refl _, eof⟩
          · next notEof =>
              have less := turns_advance tokens (not_or.mpr ⟨notEol, notEof⟩)
              exact line_over_later tokens tokens.advance _ (.advance _ .here)
                (ih tokens.advance (by omega))

theorem sync_fuel_enough (tokens : Tokens) : tokens.turns ≤ tokens.syncFuel := by
  unfold Tokens.turns Tokens.syncFuel Scanner.chars
  cases tokens.scanner.rest <;> dsimp only <;> split <;> omega

theorem error_over (tokens : Tokens) : tokens.LineOver (tokens.sync tokens.syncFuel) :=
  sync_over _ tokens (sync_fuel_enough tokens)

namespace Parser

variable {α β : Type}

/-- The action moves along the tokens; an error it raises comes with the line over. -/
class Moves (action : Parse α) : Prop where
  reaches : ∀ s value after, action s = .ok value after → s.Reaches after
  ended : ∀ s start message comment after,
    action s = .error (.raised start message comment) after → s.LineOver after

theorem moves_still (action : Parse α) (value : Tokens → α)
    (runs : ∀ s, action s = .ok (value s) s) : Moves action where
  reaches s result after ran := by
    rw [runs] at ran
    cases ran
    exact .here
  ended s start message comment after ran := by
    rw [runs] at ran
    cases ran

theorem moves_raises (action : Parse α) (stop : Tokens → ParseStop)
    (runs : ∀ s, action s = .error (stop s) (s.sync s.syncFuel)) : Moves action where
  reaches s result after ran := by
    rw [runs] at ran
    cases ran
  ended s start message comment after ran := by
    rw [runs, EStateM.Result.error.injEq] at ran
    exact ran.2 ▸ error_over s

instance moves_pure (a : α) : Moves (pure a : Parse α) := moves_still _ (fun _ => a) fun _ => rfl

instance moves_get : Moves (get : Parse Tokens) := moves_still _ id fun _ => rfl

instance moves_peek (expected : TokenType) : Moves (peek expected) :=
  moves_still _ (fun s => s.next.type == expected) fun _ => rfl

instance moves_literal_from (start : Text) : Moves (literalFrom start) :=
  moves_still _ _ fun _ => rfl

instance moves_raise_at (token : Token) (message : Message) (comment : Option Nat) :
    Moves (raiseAt token message comment : Parse α) :=
  moves_raises _ (fun _ => .raised token.start message comment) fun _ => rfl

instance moves_error_at (token : Token) (message : Message) :
    Moves (errorAt token message : Parse α) :=
  moves_raises _ (fun _ => .raised token.start message (some 0)) fun _ => rfl

instance moves_error_next (message : Message) : Moves (errorNext message : Parse α) :=
  moves_raises _ (fun s => .raised s.next.start message (some 0)) fun _ => rfl

instance moves_error_current (message : Message) : Moves (errorCurrent message : Parse α) :=
  moves_raises _ (fun s => .raised s.current.start message (some 0)) fun _ => rfl

instance moves_exit (message : Message) : Moves (throw (.exit message) : Parse α) where
  reaches s result after ran := by cases ran
  ended s start message comment after ran := by cases ran

instance moves_advance : Moves advance where
  reaches s result after ran := by
    cases ran
    exact .advance s .here
  ended s start message comment after ran := by cases ran

instance moves_bind (action : Parse α) (next : α → Parse β) [first : Moves action]
    [second : ∀ a, Moves (next a)] : Moves (action >>= next) where
  reaches s result after ran := by
    obtain ⟨a, between, one, two⟩ := (bind_ok ..).mp ran
    exact reaches_trans _ _ _ (first.reaches _ _ _ one) ((second a).reaches _ _ _ two)
  ended s start message comment after ran := by
    rw [bind_run] at ran
    cases one : action s with
    | ok a between =>
        rw [one] at ran
        exact line_over_later _ _ _ (first.reaches _ _ _ one) ((second a).ended _ _ _ _ _ ran)
    | error stop between =>
        rw [one] at ran
        cases ran
        exact first.ended _ _ _ _ _ one

instance moves_ite (condition : Prop) [Decidable condition] (first second : Parse α)
    [yes : Moves first] [no : Moves second] : Moves (if condition then first else second) := by
  split
  · exact yes
  · exact no

instance moves_match (expected : TokenType) : Moves (match_ expected) := by
  unfold match_
  infer_instance

instance moves_match_from_to (start stop : TokenType) : Moves (matchFromTo start stop) := by
  unfold matchFromTo
  infer_instance

instance moves_match_number : Moves matchNumber := by
  unfold matchNumber
  infer_instance

-- the longer actions are nested deeper than the default allows
set_option synthInstance.maxSize 4000

instance moves_paren_num : Moves parenNum := by
  unfold parenNum
  dsimp only
  infer_instance

instance moves_bracket_num : Moves bracketNum := by
  unfold bracketNum
  dsimp only
  infer_instance

instance moves_return_line : Moves returnLine := by
  unfold returnLine
  dsimp only
  infer_instance

instance moves_label : Moves label := by
  unfold label
  dsimp only
  infer_instance

instance moves_compare_obj (lib : Libseccomp) (localArch : Word) :
    Moves (compareObj lib localArch) := by
  unfold compareObj
  dsimp only
  repeat' first
    | with_reducible refine @moves_bind _ _ _ _ ?_ (fun _ => ?_)
    | with_reducible refine @moves_ite _ _ _ _ _ ?_ ?_
    | infer_instance

instance moves_condition (lib : Libseccomp) (localArch : Word) :
    Moves (condition lib localArch) := by
  unfold condition
  dsimp only
  infer_instance

instance moves_ja_line : Moves jaLine := by
  unfold jaLine
  infer_instance

instance moves_jump_line (lib : Libseccomp) (localArch : Word) :
    Moves (jumpLine lib localArch) := by
  unfold jumpLine
  dsimp only
  infer_instance

instance moves_left : Moves left := by
  unfold left
  dsimp only
  infer_instance

instance moves_right : Moves right := by
  unfold right
  dsimp only
  infer_instance

instance moves_operator : Moves operator := by
  unfold operator
  dsimp only
  infer_instance

instance moves_assign_line : Moves assignLine := by
  unfold assignLine
  infer_instance

instance moves_line (lib : Libseccomp) (localArch : Word) (codeNr : Nat) :
    Moves (line lib localArch codeNr) := by
  unfold line
  infer_instance

instance moves_skip_columns (left : Nat) : Moves (skipColumns left) := by
  induction left with
  | zero =>
      unfold skipColumns
      infer_instance
  | succ left ih =>
      unfold skipColumns
      infer_instance

end Parser

end Ceccomp
