import Ceccomp.Text.Local

/-!
The parser ends the program for one reason only: the next statement would be one too many. It
has seen by then that the line is not empty.
-/

namespace Ceccomp

namespace Parser

variable {α β : Type}

/-- The action gives up through `error_at` alone. -/
class Raises (action : Parse α) : Prop where
  raised : ∀ s stop after, action s = .error stop after →
    ∃ errorStart message comment, stop = .raised errorStart message comment

theorem raises_never (action : Parse α) (runs : ∀ s, ∃ value after, action s = .ok value after) :
    Raises action where
  raised s stop after ran := by
    obtain ⟨value, other, done⟩ := runs s
    rw [done] at ran
    cases ran

instance raises_pure (a : α) : Raises (pure a : Parse α) := raises_never _ fun _ => ⟨_, _, rfl⟩

instance raises_get : Raises (get : Parse Tokens) := raises_never _ fun _ => ⟨_, _, rfl⟩

instance raises_advance : Raises advance := raises_never _ fun _ => ⟨_, _, rfl⟩

instance raises_peek (expected : TokenType) : Raises (peek expected) :=
  raises_never _ fun _ => ⟨_, _, rfl⟩

instance raises_literal_from (start : Text) : Raises (literalFrom start) :=
  raises_never _ fun _ => ⟨_, _, rfl⟩

instance raises_raise_at (token : Token) (message : Message) (comment : Option Nat) :
    Raises (raiseAt token message comment : Parse α) where
  raised s stop after ran := by
    cases ran
    exact ⟨_, _, _, rfl⟩

instance raises_error_at (token : Token) (message : Message) :
    Raises (errorAt token message : Parse α) where
  raised s stop after ran := by
    cases ran
    exact ⟨_, _, _, rfl⟩

instance raises_error_next (message : Message) : Raises (errorNext message : Parse α) where
  raised s stop after ran := by
    cases ran
    exact ⟨_, _, _, rfl⟩

instance raises_error_current (message : Message) : Raises (errorCurrent message : Parse α) where
  raised s stop after ran := by
    cases ran
    exact ⟨_, _, _, rfl⟩

instance raises_bind (action : Parse α) (next : α → Parse β) [first : Raises action]
    [second : ∀ a, Raises (next a)] : Raises (action >>= next) where
  raised s stop after ran := by
    rw [bind_run] at ran
    cases one : action s with
    | ok a between =>
        rw [one] at ran
        exact (second a).raised _ _ _ ran
    | error other between =>
        rw [one] at ran
        cases ran
        exact first.raised _ _ _ one

instance raises_ite (condition : Prop) [Decidable condition] (first second : Parse α)
    [yes : Raises first] [no : Raises second] : Raises (if condition then first else second) := by
  split
  · exact yes
  · exact no

instance raises_match (expected : TokenType) : Raises (match_ expected) := by
  unfold match_
  infer_instance

instance raises_match_from_to (start stop : TokenType) : Raises (matchFromTo start stop) := by
  unfold matchFromTo
  infer_instance

instance raises_match_number : Raises matchNumber := by
  unfold matchNumber
  infer_instance

-- the longer actions are nested deeper than the default allows
set_option synthInstance.maxSize 4000

instance raises_paren_num : Raises parenNum := by
  unfold parenNum
  dsimp only
  infer_instance

instance raises_bracket_num : Raises bracketNum := by
  unfold bracketNum
  dsimp only
  infer_instance

instance raises_return_line : Raises returnLine := by
  unfold returnLine
  dsimp only
  infer_instance

instance raises_label : Raises label := by
  unfold label
  dsimp only
  infer_instance

instance raises_compare_obj (lib : Libseccomp) (localArch : Word) :
    Raises (compareObj lib localArch) := by
  unfold compareObj
  dsimp only
  repeat' first
    | with_reducible refine @raises_bind _ _ _ _ ?_ (fun _ => ?_)
    | with_reducible refine @raises_ite _ _ _ _ _ ?_ ?_
    | infer_instance

instance raises_condition (lib : Libseccomp) (localArch : Word) :
    Raises (condition lib localArch) := by
  unfold condition
  dsimp only
  infer_instance

instance raises_ja_line : Raises jaLine := by
  unfold jaLine
  infer_instance

instance raises_jump_line (lib : Libseccomp) (localArch : Word) :
    Raises (jumpLine lib localArch) := by
  unfold jumpLine
  dsimp only
  infer_instance

instance raises_left : Raises left := by
  unfold left
  dsimp only
  infer_instance

instance raises_right : Raises right := by
  unfold right
  dsimp only
  infer_instance

instance raises_operator : Raises operator := by
  unfold operator
  dsimp only
  infer_instance

instance raises_assign_line : Raises assignLine := by
  unfold assignLine
  infer_instance

instance raises_skip_columns (left : Nat) : Raises (skipColumns left) := by
  induction left with
  | zero =>
      unfold skipColumns
      infer_instance
  | succ left ih =>
      unfold skipColumns
      infer_instance

instance raises_line_end (comment : Option Nat) : Raises (lineEnd comment) := by
  unfold lineEnd
  infer_instance

theorem raises_exit (action : Parse α) [raises : Raises action] (s after : Tokens)
    (message : Message) : action s ≠ .error (.exit message) after := by
  intro ran
  obtain ⟨errorStart, other, comment, same⟩ := raises.raised _ _ _ ran
  cases same

/-- What the parser has seen when it ends the program: the first token of a statement that is
one too many. -/
structure Exits (message : Message) (codeNr : Nat) (s : Tokens) : Prop where
  overflow : message = .statementOverflow
  many : bpfMaxInsns < codeNr
  some_ : s.next.type ∉ [.eol, .comment, .tokenEof]

theorem line_exit (lib : Libseccomp) (localArch : Word) (codeNr : Nat) (s after : Tokens)
    (message : Message) (ran : line lib localArch codeNr s = .error (.exit message) after) :
    Exits message codeNr s := by
  rw [line_run] at ran
  split at ran
  · cases ran
  · next proper =>
      split at ran
      · cases ran
      · next goes =>
          split at ran
          · next many =>
              cases ran
              rw [not_or] at proper
              exact { overflow := rfl, many, some_ := by simp [proper, goes] }
          · split at ran
            · exact absurd ran (raises_exit _ _ _ _)
            · split at ran
              · exact absurd ran (raises_exit _ _ _ _)
              · split at ran
                · exact absurd ran (raises_exit _ _ _ _)
                · split at ran
                  · exact absurd ran (raises_exit _ _ _ _)
                  · cases ran

theorem expression_exit (lib : Libseccomp) (localArch : Word) (local_ : Statement)
    (s after : Tokens) (message : Message)
    (ran : expression lib localArch local_ s = .error (.exit message) after) :
    Exits message local_.codeNr s := by
  rcases expression_run lib localArch local_ s with
    ⟨stop, last, failed, same⟩ | ⟨got, between, _, ⟨stop, last, failed, same⟩ |
      ⟨ending, last, _, same⟩⟩
  · rw [same] at ran
    cases ran
    exact line_exit lib localArch _ s after message failed
  · rw [same] at ran
    cases ran
    exact absurd failed (raises_exit _ _ _ _)
  · rw [same] at ran
    cases ran

end Parser

theorem run_line_exit (action : Parse Statement) (local_ : Statement) (s : Tokens)
    (message : Message) (ran : runLine action local_ s = .error message) :
    ∃ after, action s = .error (.exit message) after := by
  unfold runLine at ran
  split at ran
  · cases ran
  · cases ran
  · next other after same =>
      cases ran
      exact ⟨after, same⟩

/-- The statement of the line begins there: behind the label and its columns, if it has one. -/
inductive Tokens.Statement (tokens : Tokens) : Tokens → Prop where
  | plain (noLabel : tokens.next.type ≠ .labelDecl) : tokens.Statement tokens
  | labelled (behind : Tokens) (label : tokens.next.type = .labelDecl)
      (columns : Parser.skipColumns 4 tokens.advance = .ok () behind) : tokens.Statement behind

theorem parse_line_exit (lib : Libseccomp) (localArch : Word) (state : ParseState)
    (message : Message) (ran : parseLine lib localArch state = .error message) :
    ∃ s, state.tokens.Statement s ∧ Parser.Exits message ((state.codeNr + 1) % 2 ^ 16) s := by
  obtain ⟨textNr, codeNr, tokens, table⟩ := state
  by_cases declares : tokens.next.type = .labelDecl
  · obtain ⟨duplicate, added, inserted⟩ : ∃ duplicate added,
        insertKey table (labelKey tokens) ((codeNr + 1) % 2 ^ 16) = (duplicate, added) := ⟨_, _, rfl⟩
    rw [parse_line_labelled lib localArch textNr codeNr tokens table _ _ declares inserted] at ran
    cases duplicate with
    | true =>
        rw [if_pos rfl] at ran
        cases ran
    | false =>
        rw [if_neg (by decide)] at ran
        cases done : runLine _ (labelled textNr codeNr tokens) tokens.advance with
        | ok both =>
            rw [done] at ran
            cases ran
        | error other =>
            rw [done] at ran
            cases ran
            obtain ⟨after, exits⟩ := run_line_exit _ _ _ _ done
            rw [Parser.bind_run] at exits
            cases columns : Parser.skipColumns 4 tokens.advance with
            | error stop last =>
                rw [columns] at exits
                cases exits
                exact absurd columns (Parser.raises_exit _ _ _ _)
            | ok _ between =>
                rw [columns] at exits
                exact ⟨between, .labelled between declares columns,
                  Parser.expression_exit lib localArch _ _ _ _ exits⟩
  · rw [parse_line_plain lib localArch textNr codeNr tokens table declares] at ran
    cases done : runLine _ _ tokens with
    | ok both =>
        rw [done] at ran
        cases ran
    | error other =>
        rw [done] at ran
        cases ran
        obtain ⟨after, exits⟩ := run_line_exit _ _ _ _ done
        exact ⟨tokens, .plain declares, Parser.expression_exit lib localArch _ _ _ _ exits⟩

end Ceccomp
