import Ceccomp.Text.Reparsed
import Ceccomp.Text.Segments

/-!
The characters behind a parsed statement: names are words, numbers are numerals, and what
an object keeps as its literal is read again as that object.
-/

namespace Ceccomp

theorem scanned_advance (tokens : Tokens) : tokens.advance.Scanned :=
  ⟨tokens.scanner, rfl, rfl⟩

theorem scanned_reaches (tokens after : Tokens) (scanned : tokens.Scanned)
    (reaches : tokens.Reaches after) : after.Scanned := by
  cases reaches with
  | here => exact scanned
  | advance between _ => exact scanned_advance between

theorem scanned_spelled (tokens : Tokens) (scanned : tokens.Scanned)
    (kind : tokens.next.type ∉ markers) :
    Spelled tokens.next.start tokens.next.type tokens.next.len tokens.next.data ∧
      tokens.advance.next.start =
        (tokens.next.start.drop tokens.next.len).dropWhile isSpace := by
  obtain ⟨before, next, behind⟩ := scanned
  have start : tokens.advance.next.start = (tokens.scanner.rest.getD []).dropWhile isSpace :=
    scan_start _
  rw [start, behind]
  rw [next] at kind ⊢
  revert kind
  unfold scanToken
  cases before.rest with
  | none => exact fun kind => absurd (by simp [markers]) kind
  | some rest =>
      dsimp only
      by_cases blank : rest.dropWhile isSpace = []
      · rw [if_pos blank]
        exact fun kind => absurd (by simp [markers]) kind
      · rw [if_neg blank]
        by_cases comment : peekAt (rest.dropWhile isSpace) 0 = '#'
        · rw [if_pos comment]
          exact fun kind => absurd (by simp [markers]) kind
        · rw [if_neg comment]
          cases found : scanLexeme (rest.dropWhile isSpace) with
          | none =>
              dsimp only
              split
              · exact fun kind => absurd (by simp [markers]) kind
              · exact fun kind => absurd (by simp [markers]) kind
          | some lexeme =>
              obtain ⟨type, len, data⟩ := lexeme
              exact fun _ => ⟨lexeme_spelled _ type len data found, rfl⟩

/-- A character that no word has stands in a token only if the token is spelled with it. -/
theorem spelled_without {text : Text} {type : TokenType} {len : Nat} {data : Word} (c : Char)
    (spelled : Spelled text type len data) (kind : type ∉ refused) (foreign : isIdentifier c = false)
    (noColon : c ≠ ':') (sign : c ∉ type.spelling) : c ∉ text.take len := by
  have outside (word : Text) (inside : ∀ d ∈ word, isIdentifier d = true) : c ∉ word := by
    intro member
    rw [inside c member] at foreign
    cases foreign
  cases spelled with
  | reserved _ _ begins =>
      rw [prefix_taken _ _ begins]
      exact sign
  | word =>
      have word := outside (text.takeWhile isIdentifier) fun d => List.mem_takeWhile_imp
      unfold scanWord
      dsimp only
      split
      · next colon =>
          dsimp only
          rw [List.take_add, take_while_taken, peek_drop text _ ':' colon (by decide)]
          simp [word, noColon]
      · rw [take_while_taken]
        exact word
  | number digit =>
      have digits (base : Nat) (digits : Text) (all : ∀ d ∈ digits, isDigitIn base d = true) :
          c ∉ digits :=
        outside digits fun d member => digit_identifier base d (all d member)
      have front : ∀ d ∈ ['0', 'x', 'X'], c ≠ d := by
        rintro d member rfl
        revert member foreign
        simp only [List.mem_cons, List.not_mem_nil, or_false]
        rintro foreign (rfl | rfl | rfl) <;> revert foreign <;> decide
      rcases strtoul_cases text digit with ⟨x, behind, known, _, all, read, taken⟩ |
        ⟨behind, all, read, taken⟩ | ⟨behind, _, _, all, read, taken⟩
      · rw [read, taken, List.mem_cons, List.mem_cons, not_or, not_or]
        refine ⟨front '0' (by decide), ?_, digits 16 behind all⟩
        rcases known with rfl | rfl
        · exact front 'x' (by decide)
        · exact front 'X' (by decide)
      · rw [read, taken]
        exact digits 8 _ all
      · rw [read, taken]
        exact digits 10 _ all
  | overflow => exact absurd (by decide) kind
  | punct _ _ scanned =>
      rw [punct_spelled text type len scanned]
      exact sign

def Unmarked (text : Text) : Prop := '.' ∉ text ∧ '#' ∉ text

theorem unmarked_append (first second : Text) (one : Unmarked first) (two : Unmarked second) :
    Unmarked (first ++ second) := by
  simp only [Unmarked, List.mem_append, not_or]
  exact ⟨⟨one.1, two.1⟩, one.2, two.2⟩

theorem blanks_unmarked (blanks : Text) (blank : ∀ c ∈ blanks, isSpace c = true) : Unmarked blanks :=
  ⟨fun member => absurd (blank '.' member) (by decide),
    fun member => absurd (blank '#' member) (by decide)⟩

theorem identifier_unmarked (word : Text) (inside : ∀ c ∈ word, isIdentifier c = true) :
    Unmarked word :=
  ⟨fun member => absurd (inside '.' member) (by decide),
    fun member => absurd (inside '#' member) (by decide)⟩

theorem spelled_unmarked {text : Text} {type : TokenType} {len : Nat} {data : Word}
    (spelled : Spelled text type len data) (kind : type ∉ .dot :: refused) :
    Unmarked (text.take len) := by
  have signs : '.' ∉ type.spelling ∧ '#' ∉ type.spelling := by
    revert kind
    cases type <;> decide
  rw [List.mem_cons, not_or] at kind
  exact ⟨spelled_without '.' spelled kind.2 (by decide) (by decide) signs.1,
    spelled_without '#' spelled kind.2 (by decide) (by decide) signs.2⟩

theorem token_ahead (tokens : Tokens) (scanned : tokens.Scanned)
    (kind : tokens.next.type ∉ markers) :
    ∃ blanks, (∀ c ∈ blanks, isSpace c = true) ∧
      tokens.next.start = tokens.next.text ++ (blanks ++ tokens.advance.next.start) := by
  refine ⟨(tokens.next.start.drop tokens.next.len).takeWhile isSpace,
    fun c => List.mem_takeWhile_imp, ?_⟩
  rw [(scanned_spelled tokens scanned kind).2, List.takeWhile_append_dropWhile]
  exact (List.take_append_drop _ _).symm

theorem refused_marks (type : TokenType) (kind : type ∉ refused) : type ∉ markers := by
  revert kind
  cases type <;> decide

theorem scanned_number (tokens : Tokens) (scanned : tokens.Scanned)
    (number : tokens.next.type = .number) : NumberWord tokens.next.text tokens.next.data := by
  have spelled := (scanned_spelled tokens scanned (by rw [number]; decide)).1
  exact number_again spelled number

theorem scanned_name (tokens : Tokens) (scanned : tokens.Scanned)
    (name : tokens.next.type = .identifier) : PlainName tokens.next.text := by
  have spelled := (scanned_spelled tokens scanned (by rw [name]; decide)).1
  exact identifier_plain spelled name

theorem scanned_label (tokens : Tokens) (scanned : tokens.Scanned)
    (label : tokens.next.type = .labelDecl) : PlainName (labelKey tokens) := by
  have spelled := (scanned_spelled tokens scanned (by rw [label]; decide)).1
  obtain ⟨name, plain, length, taken⟩ := declaration_plain spelled label
  have key : labelKey tokens = name := by
    have front : (tokens.next.start.take tokens.next.len).take name.length = name := by
      rw [taken, List.take_left]
    rw [List.take_take, length, Nat.min_eq_left (Nat.le_succ _)] at front
    unfold labelKey
    rw [length, Nat.add_sub_cancel]
    exact front
  rw [key]
  exact plain

/-- Tokens of the line were taken, none of them a dot. -/
inductive Tokens.Dotless (start : Tokens) : Tokens → Prop where
  | here : Tokens.Dotless start start
  | advance (tokens : Tokens) (early : Tokens.Dotless start tokens)
      (plain : tokens.next.type ∉ .dot :: refused) : Tokens.Dotless start tokens.advance

theorem dotless_trans (a b c : Tokens) (first : a.Dotless b) (second : b.Dotless c) : a.Dotless c := by
  induction second with
  | here => exact first
  | advance tokens _ plain ih => exact .advance tokens ih plain

theorem dotless_piece (start after : Tokens) (scanned : start.Scanned) (dotless : start.Dotless after) :
    after.Scanned ∧ ∃ piece, start.next.start = piece ++ after.next.start ∧ Unmarked piece := by
  induction dotless with
  | here => exact ⟨scanned, [], rfl, by decide, by decide⟩
  | advance tokens _ plain ih =>
      obtain ⟨here, piece, same, free⟩ := ih
      have kind := plain
      rw [List.mem_cons, not_or] at kind
      have marks := refused_marks _ kind.2
      obtain ⟨blanks, blank, ahead⟩ := token_ahead tokens here marks
      have word := spelled_unmarked (scanned_spelled tokens here marks).1 plain
      refine ⟨scanned_advance tokens, piece ++ (tokens.next.text ++ blanks), ?_, ?_⟩
      · rw [same, ahead]
        simp
      · exact unmarked_append _ _ free (unmarked_append _ _ word (blanks_unmarked blanks blank))

theorem inside_piece (start after : Tokens) (count : Nat) (scanned : start.Scanned)
    (inside : start.Inside count after) :
    after.Scanned ∧ ∃ piece, start.next.start = piece ++ after.next.start := by
  induction inside with
  | here => exact ⟨scanned, [], rfl⟩
  | advance count tokens _ taken ih =>
      obtain ⟨here, piece, same⟩ := ih
      obtain ⟨blanks, _, ahead⟩ := token_ahead tokens here (refused_marks _ taken)
      refine ⟨scanned_advance tokens, piece ++ (tokens.next.text ++ blanks), ?_⟩
      rw [same, ahead]
      simp

theorem dotless_reaches (a b : Tokens) (dotless : a.Dotless b) : a.Reaches b := by
  induction dotless with
  | here => exact .here
  | advance tokens _ _ ih => exact .advance tokens ih

namespace Parser

variable {α β : Type}

/-- The action takes in tokens of the line, and no dot. -/
class Undotted (action : Parse α) : Prop where
  ok : ∀ s value after, action s = .ok value after → s.Dotless after

theorem undotted_still (action : Parse α) (value : Tokens → α)
    (runs : ∀ s, action s = .ok (value s) s) : Undotted action where
  ok s result after ran := by
    rw [runs] at ran
    cases ran
    exact .here

instance undotted_pure (a : α) : Undotted (pure a : Parse α) := undotted_still _ (fun _ => a) fun _ => rfl

instance undotted_get : Undotted (get : Parse Tokens) := undotted_still _ id fun _ => rfl

instance undotted_peek (expected : TokenType) : Undotted (peek expected) :=
  undotted_still _ (fun s => s.next.type == expected) fun _ => rfl

instance undotted_literal_from (start : Text) : Undotted (literalFrom start) :=
  undotted_still _ _ fun _ => rfl

instance undotted_error_next (message : Message) : Undotted (errorNext message : Parse α) where
  ok s value after ran := by cases ran

instance undotted_bind (action : Parse α) (next : α → Parse β) [first : Undotted action]
    [second : ∀ a, Undotted (next a)] : Undotted (action >>= next) where
  ok s value after ran := by
    obtain ⟨a, between, one, two⟩ := (bind_ok ..).mp ran
    exact dotless_trans _ _ _ (first.ok _ _ _ one) ((second a).ok _ _ _ two)

instance undotted_ite (condition : Prop) [Decidable condition] (first second : Parse α)
    [yes : Undotted first] [no : Undotted second] :
    Undotted (if condition then first else second) := by
  split
  · exact yes
  · exact no

theorem undotted_match (expected : TokenType) (wanted : expected ∉ .dot :: refused) :
    Undotted (match_ expected) where
  ok s value after ran := by
    rw [match_run] at ran
    split at ran
    · next same =>
        cases ran
        exact .advance _ .here (same ▸ wanted)
    · cases ran
      exact .here

theorem undotted_match_from_to (start stop : TokenType)
    (wanted : ∀ type ∈ .dot :: refused, type.fromTo start stop = false) :
    Undotted (matchFromTo start stop) where
  ok s value after ran := by
    have bound := match_from_to_bind start stop pure s
    rw [bind_pure] at bound
    rw [bound] at ran
    split at ran
    · next inside =>
        cases ran
        refine .advance _ .here fun member => ?_
        rw [wanted _ member] at inside
        cases inside
    · cases ran
      exact .here

instance undotted_match_number : Undotted matchNumber := by
  have number := undotted_match .number (by decide)
  unfold matchNumber
  infer_instance

instance undotted_paren_num : Undotted parenNum := by
  unfold parenNum
  dsimp only
  repeat' first
    | with_reducible refine @undotted_bind _ _ _ _ ?_ (fun _ => ?_)
    | with_reducible refine @undotted_ite _ _ _ _ _ ?_ ?_
    | exact undotted_match _ (by decide)
    | exact undotted_match_from_to _ _ (by decide)
    | infer_instance

instance undotted_bracket_num : Undotted bracketNum := by
  unfold bracketNum
  dsimp only
  repeat' first
    | with_reducible refine @undotted_bind _ _ _ _ ?_ (fun _ => ?_)
    | with_reducible refine @undotted_ite _ _ _ _ _ ?_ ?_
    | exact undotted_match _ (by decide)
    | exact undotted_match_from_to _ _ (by decide)
    | infer_instance

instance undotted_label : Undotted label := by
  unfold label
  dsimp only
  repeat' first
    | with_reducible refine @undotted_bind _ _ _ _ ?_ (fun _ => ?_)
    | with_reducible refine @undotted_ite _ _ _ _ _ ?_ ?_
    | exact undotted_match _ (by decide)
    | exact undotted_match_from_to _ _ (by decide)
    | infer_instance

instance undotted_left : Undotted left := by
  unfold left
  dsimp only
  repeat' first
    | with_reducible refine @undotted_bind _ _ _ _ ?_ (fun _ => ?_)
    | with_reducible refine @undotted_ite _ _ _ _ _ ?_ ?_
    | exact undotted_match _ (by decide)
    | exact undotted_match_from_to _ _ (by decide)
    | infer_instance

instance undotted_right : Undotted right := by
  unfold right
  dsimp only
  repeat' first
    | with_reducible refine @undotted_bind _ _ _ _ ?_ (fun _ => ?_)
    | with_reducible refine @undotted_ite _ _ _ _ _ ?_ ?_
    | exact undotted_match _ (by decide)
    | exact undotted_match_from_to _ _ (by decide)
    | infer_instance

instance undotted_operator : Undotted operator := by
  unfold operator
  dsimp only
  repeat' first
    | with_reducible refine @undotted_bind _ _ _ _ ?_ (fun _ => ?_)
    | with_reducible refine @undotted_ite _ _ _ _ _ ?_ ?_
    | exact undotted_match _ (by decide)
    | exact undotted_match_from_to _ _ (by decide)
    | infer_instance

instance undotted_assign_line : Undotted assignLine := by
  unfold assignLine
  repeat' first
    | with_reducible refine @undotted_bind _ _ _ _ ?_ (fun _ => ?_)
    | with_reducible refine @undotted_ite _ _ _ _ _ ?_ ?_
    | exact undotted_match _ (by decide)
    | exact undotted_match_from_to _ _ (by decide)
    | infer_instance

instance undotted_ja_line : Undotted jaLine := by
  unfold jaLine
  repeat' first
    | with_reducible refine @undotted_bind _ _ _ _ ?_ (fun _ => ?_)
    | with_reducible refine @undotted_ite _ _ _ _ _ ?_ ?_
    | exact undotted_match _ (by decide)
    | exact undotted_match_from_to _ _ (by decide)
    | infer_instance

instance undotted_return_line : Undotted returnLine := by
  unfold returnLine
  dsimp only
  repeat' first
    | with_reducible refine @undotted_bind _ _ _ _ ?_ (fun _ => ?_)
    | with_reducible refine @undotted_ite _ _ _ _ _ ?_ ?_
    | exact undotted_match _ (by decide)
    | exact undotted_match_from_to _ _ (by decide)
    | infer_instance

instance undotted_skip_columns (left : Nat) : Undotted (skipColumns left) := by
  induction left with
  | zero =>
      unfold skipColumns
      infer_instance
  | succ left ih =>
      unfold skipColumns
      infer_instance

theorem number_legible (literal : Text) (data : Word) (number : NumberWord literal data) :
    Obj.Legible { type := .number, data, literal := some literal } :=
  { number := fun _ => number
    plain := fun other => absurd List.mem_cons_self other }

theorem right_legible (tokens after : Tokens) (scanned : tokens.Scanned) (value : Obj)
    (ran : right tokens = .ok value after) : value.Legible := by
  unfold right at ran
  simp only [get_bind, bind_assoc, match_from_to_bind, match_bind, match_number_bind, ite_run,
    ite_bind, pure_bind, error_next_bind, pure_run, advance_current, literal_from_bind, if_true,
    Bool.false_eq_true, if_false, Nat.sub_self, Nat.zero_add] at ran
  have word (type : TokenType) (literal : Option Text) (proper : type ≠ .number) :
      Obj.Legible { type, data := 0, literal } :=
    { number := fun number => absurd number proper, plain := fun _ => rfl }
  split at ran
  · next register =>
      cases ran
      exact word _ _ (by rw [register]; decide)
  · split at ran
    · next register =>
        cases ran
        exact word _ _ (by rw [register]; decide)
    · split at ran
      · next attr =>
          cases ran
          have listed := (attr_range _).mp attr
          refine word _ _ ?_
          rintro number
          rw [number] at listed
          exact absurd listed (by decide)
      · -- an index is printed from its value
        have place (type : TokenType) (data : Word) (literal : Option Text)
            (known : type ∈ [.mem, .attrLowarg, .attrHigharg]) :
            Obj.Legible { type, data, literal } := by
          have each : ∀ type ∈ [TokenType.mem, .attrLowarg, .attrHigharg], type ≠ .number ∧
              type ∈ .number :: indexed := by
            decide
          exact
            { number := fun number => absurd number (each type known).1
              plain := fun other => absurd (each type known).2 other }
        split at ran
        · next name =>
            obtain ⟨data, between, _, ran⟩ := (bind_ok ..).mp ran
            cases ran
            exact place _ _ _ (by rw [name]; decide)
        · split at ran
          · next name =>
              obtain ⟨data, between, _, ran⟩ := (bind_ok ..).mp ran
              cases ran
              exact place _ _ _ (by rw [name]; decide)
          · split at ran
            · next name =>
                obtain ⟨data, between, _, ran⟩ := (bind_ok ..).mp ran
                cases ran
                exact place _ _ _ (by rw [name]; decide)
            · split at ran
              · next number =>
                  cases ran
                  exact number_legible _ _ (scanned_number tokens scanned number)
              · split at ran <;> cases ran

theorem left_legible (tokens after : Tokens) (value : Obj)
    (target : tokens.current.type ∈ [.A, .X, .mem]) (ran : left tokens = .ok value after) :
    value.Legible := by
  have each : ∀ type ∈ [TokenType.A, .X, .mem], type ≠ .number ∧
      (type = .mem → type ∈ .number :: indexed) := by
    decide
  obtain ⟨proper, place⟩ := each _ target
  unfold left at ran
  simp only [get_bind, ite_run, pure_bind] at ran
  split at ran
  · next mem =>
      obtain ⟨data, between, _, ran⟩ := (bind_ok ..).mp ran
      cases ran
      exact
        { number := fun number => absurd number proper
          plain := fun other => absurd (place mem) other }
  · cases ran
    exact { number := fun number => absurd number proper, plain := fun _ => rfl }

/-- What a parsed jump is like, whatever the resolver will make of its labels. -/
structure JumpWorded (line : JumpLine) : Prop where
  jt : ∃ key, line.jt.key = some key ∧ PlainName key
  jf : ∀ key, line.jf.key = some key → PlainName key
  noElse : line.jf.key = none → line.jf.codeNr = 0
  always : line.ifCondition = false → line.ifBang = false
  alone : line.ifCondition = false → line.jf.key = none
  comparator : line.ifCondition = true → line.comparator ∈ comparators

theorem return_worded (tokens after : Tokens) (scanned : tokens.Scanned) (value : Line)
    (ran : returnLine tokens = .ok value after) :
    ∃ line, value = .return_ line ∧ line.retObj.type ∈ returnTypes ∧ line.retObj.Legible := by
  unfold returnLine at ran
  simp only [bind_assoc, get_bind, match_from_to_bind, match_bind, match_number_bind,
    literal_from_bind, pure_bind, ite_run, ite_bind, error_next_bind, if_true, Bool.false_eq_true,
    if_false, pure_run, advance_current, Nat.sub_self, Nat.zero_add] at ran
  have word (type : TokenType) (literal : Option Text)
      (known : type ∈ [.A, .killProc, .kill, .allow, .notify, .log]) :
      type ∈ returnTypes ∧ Obj.Legible { type, data := 0, literal } := by
    have each : ∀ type ∈ [TokenType.A, .killProc, .kill, .allow, .notify, .log],
        type ∈ returnTypes ∧ type ≠ .number := by
      decide
    exact ⟨(each type known).1,
      { number := fun number => absurd number (each type known).2, plain := fun _ => rfl }⟩
  split at ran
  · next action =>
      obtain ⟨data, between, _, ran⟩ := (bind_ok ..).mp ran
      cases ran
      have listed := (data_action_range _).mp action
      have each : ∀ type ∈ [TokenType.trace, .trap, .errno], type ∈ returnTypes ∧ type ≠ .number ∧
          type ∈ .number :: indexed := by
        decide
      obtain ⟨known, proper, place⟩ := each _ listed
      exact ⟨_, rfl, known,
        { number := fun number => absurd number proper, plain := fun other => absurd place other }⟩
  · split at ran
    · next number =>
        cases ran
        exact ⟨_, rfl, by simp [returnTypes],
          number_legible _ _ (scanned_number tokens scanned number)⟩
    · split at ran
      · cases ran
      · split at ran
        · next action =>
            cases ran
            have listed := (plain_action_range _).mp action
            have each : ∀ type ∈ [TokenType.killProc, .kill, .allow, .notify, .log],
                type ∈ [.A, .killProc, .kill, .allow, .notify, .log] := by
              decide
            obtain ⟨known, legible⟩ := word tokens.next.type _ (each _ listed)
            exact ⟨_, rfl, known, legible⟩
        · split at ran
          · next register =>
              cases ran
              obtain ⟨known, legible⟩ := word tokens.next.type _ (by rw [register]; decide)
              exact ⟨_, rfl, known, legible⟩
          · cases ran

theorem assign_worded (tokens after : Tokens) (target : tokens.current.type ∈ [.A, .X, .mem])
    (value : Line) (ran : assignLine tokens = .ok value after) (scanned : tokens.Scanned) :
    ∃ line, value = .assign line ∧ line.Shaped ∧ line.leftVar.Legible ∧ line.rightVar.Legible := by
  have shaped := assign_line_shaped tokens target value after ran
  unfold assignLine at ran
  obtain ⟨leftVar, s1, gotLeft, ran⟩ := (bind_ok ..).mp ran
  obtain ⟨operator_, s2, gotOperator, ran⟩ := (bind_ok ..).mp ran
  obtain ⟨rightVar, s3, gotRight, ran⟩ := (bind_ok ..).mp ran
  cases ran
  have again := scanned_reaches _ _ (scanned_reaches _ _ scanned (Moves.reaches _ _ _ gotLeft))
    (Moves.reaches _ _ _ gotOperator)
  exact ⟨_, rfl, shaped, left_legible tokens s1 leftVar target gotLeft,
    right_legible s2 _ again rightVar gotRight⟩

theorem label_worded (tokens after : Tokens) (scanned : tokens.Scanned) (value : Label)
    (ran : label tokens = .ok value after) : ∃ key, value.key = some key ∧ PlainName key := by
  unfold label at ran
  simp only [match_bind, ite_run, error_next_bind, get_bind, Bool.not_true, Bool.not_false, if_true,
    Bool.false_eq_true, if_false, pure_run, advance_current] at ran
  split at ran
  · next word =>
      cases ran
      exact ⟨_, rfl, scanned_name tokens scanned word⟩
  · cases ran

section Jumps

variable (lib : Libseccomp) (localArch : Word)

/-- A condition up to its operand, in front of which stands the comparator. -/
structure Compared (tokens : Tokens) (line : JumpLine) (at_ : Tokens) (after : Tokens) : Prop where
  dotless : tokens.Dotless at_
  comparator : at_.next.type ∈ comparators ∧ line.comparator = at_.next.type
  operand : compareObj lib localArch at_.advance = .ok (line.cmpobj, line.cmptype) after
  conditional : line.ifCondition = true

theorem condition_compared (tokens after : Tokens) (line : JumpLine)
    (ran : condition lib localArch tokens = .ok line after) :
    ∃ at_ between, Compared lib localArch tokens line at_ between ∧ between.Dotless after ∧
      line.jf = .zero := by
  have sign : ∀ type ∈ comparators ++ [TokenType.bang, .leftParen, .A], type ∉ .dot :: refused := by
    decide
  unfold condition at ran
  -- behind the bang, or where there is none
  obtain ⟨ifBang, s, front, ran⟩ : ∃ ifBang s, tokens.Dotless s ∧ (do
      if !(← match_ .leftParen) then errorNext .expectParen
      if !(← match_ .A) then errorNext .expectA
      if !(← matchFromTo .equalEqual .and) then errorNext .expectCompartor
      let comparator := (← get).current.type
      let compared ← compareObj lib localArch
      if !(← match_ .rightParen) then errorNext .expectParen
      return { ifBang, ifCondition := true, cmptype := compared.2, comparator, cmpobj := compared.1,
               jt := .zero, jf := .zero } : Parse JumpLine) s = .ok line after := by
    rw [match_bind] at ran
    split at ran
    · next bang => exact ⟨true, _, .advance _ .here (by rw [bang]; decide), ran⟩
    · exact ⟨false, _, .here, ran⟩
  simp only [get_bind, match_from_to_bind, match_bind, ite_run, error_next_bind, advance_current,
    if_true, Bool.false_eq_true, if_false, Bool.not_true, Bool.not_false] at ran
  split at ran
  · next paren =>
      split at ran
      · next register =>
          split at ran
          · next comparator =>
              have known := (comparator_range _).mp comparator
              obtain ⟨⟨cmpobj, cmptype⟩, between, compared, ran⟩ := (bind_ok ..).mp ran
              simp only [match_bind, ite_run, error_next_bind, if_true, Bool.false_eq_true, if_false,
                Bool.not_true, Bool.not_false, pure_run] at ran
              split at ran
              · next close =>
                cases ran
                refine ⟨s.advance.advance, between, ?_, .advance _ .here (by rw [close]; decide), rfl⟩
                exact
                  { dotless := .advance _ (.advance _ front (by rw [paren]; decide))
                      (by rw [register]; decide)
                    comparator := ⟨known, rfl⟩
                    operand := compared
                    conditional := rfl }
              · cases ran
          · cases ran
      · cases ran
  · cases ran

theorem jump_compared (tokens after : Tokens) (value : Line)
    (ran : jumpLine lib localArch tokens = .ok value after) :
    ∃ line at_ between, value = .jump line ∧ Compared lib localArch tokens line at_ between ∧
      between.Dotless after ∧ JumpWorded line := by
  unfold jumpLine at ran
  obtain ⟨line, s1, gotCondition, ran⟩ := (bind_ok ..).mp ran
  obtain ⟨at_, between, compared, closed, noElse⟩ :=
    condition_compared lib localArch tokens s1 line gotCondition
  have known : line.comparator ∈ comparators := by
    rw [compared.comparator.2]
    exact compared.comparator.1
  have same (jt jf : Label) : Compared lib localArch tokens { line with jt, jf } at_ between :=
    { dotless := compared.dotless, comparator := compared.comparator, operand := compared.operand
      conditional := compared.conditional }
  have always (jt jf : Label) : ({ line with jt, jf } : JumpLine).ifCondition = false → line.ifBang = false :=
    fun plain => absurd (compared.conditional.symm.trans plain) (by decide)
  simp only [match_bind, ite_run, error_next_bind, if_true, Bool.false_eq_true, if_false,
    Bool.not_true, Bool.not_false] at ran
  split at ran
  · next goto_ =>
    obtain ⟨jt, s2, gotJt, ran⟩ := (bind_ok ..).mp ran
    have word := label_worded _ _ (scanned_advance s1) jt gotJt
    have taken : between.Dotless s2 :=
      dotless_trans _ _ _ (.advance _ closed (by rw [goto_]; decide)) (Undotted.ok _ _ _ gotJt)
    simp only [match_bind, ite_run, error_next_bind, if_true, Bool.false_eq_true, if_false,
      Bool.not_true, Bool.not_false, pure_run] at ran
    split at ran
    · next comma =>
      split at ran
      · next else_ =>
        split at ran
        · next again =>
          obtain ⟨jf, s3, gotJf, ran⟩ := (bind_ok ..).mp ran
          cases ran
          obtain ⟨key, named, plain⟩ := label_worded _ _ (scanned_advance _) jf gotJf
          have signs : between.Dotless s2.advance.advance.advance :=
            .advance _ (.advance _ (.advance _ taken (by rw [comma]; decide)) (by rw [else_]; decide))
              (by rw [again]; decide)
          refine ⟨_, at_, between, rfl, same jt jf, ?_, ?_⟩
          · exact dotless_trans _ _ _ signs (Undotted.ok _ _ _ gotJf)
          · exact
              { jt := word
                jf := fun other found => by
                  cases named.symm.trans found
                  exact plain
                noElse := fun missing => by
                  rw [named] at missing
                  cases missing
                always := always jt jf
                alone := fun plain => absurd (compared.conditional.symm.trans plain) (by decide)
                comparator := fun _ => known }
        · cases ran
      · cases ran
    · cases ran
      refine ⟨_, at_, between, rfl, same jt line.jf, taken, ?_⟩
      exact
        { jt := word
          jf := fun other found => by
            rw [noElse] at found
            cases found
          noElse := fun _ => by
            show line.jf.codeNr = 0
            rw [noElse]
            rfl
          always := always jt line.jf
          alone := fun plain => absurd (compared.conditional.symm.trans plain) (by decide)
          comparator := fun _ => known }
  · cases ran

theorem ja_worded (tokens after : Tokens) (scanned : tokens.Scanned) (value : Line)
    (ran : jaLine tokens = .ok value after) :
    ∃ line, value = .jump line ∧ line.ifCondition = false ∧ JumpWorded line := by
  unfold jaLine at ran
  obtain ⟨jt, s1, gotJt, ran⟩ := (bind_ok ..).mp ran
  have word := label_worded _ _ scanned jt gotJt
  cases ran
  refine ⟨_, rfl, rfl, ?_⟩
  exact
    { jt := word
      jf := fun other found => by cases found
      noElse := fun _ => rfl
      always := fun _ => rfl
      alone := fun _ => rfl
      comparator := fun conditional => by cases conditional }

end Jumps

end Parser

end Ceccomp
