import Ceccomp.Text.Numerals
import Ceccomp.Text.Shape

/-!
The parser on the text that `print_statement` writes: it takes each printed part off the
line and finds the type and the number that were printed.
-/

namespace Ceccomp

def indexed : List TokenType := [.mem, .attrLowarg, .attrHigharg, .trace, .trap, .errno]

/-- A number is printed as itself, and what is printed without its number has none. -/
structure Obj.Legible (obj : Obj) : Prop where
  number : obj.type = .number → NumberWord (Formatter.printNum obj) obj.data
  plain : obj.type ∉ .number :: indexed → obj.data = 0

def Obj.Same (obj other : Obj) : Prop := other.type = obj.type ∧ other.data = obj.data

namespace Parser

variable {α β : Type}

/-- On a line where `rest` follows, the action takes `text` and yields such a value. -/
def Reads (action : Parse α) (text rest : Text) (post : α → Prop) : Prop :=
  ∀ tokens scanner, tokens.At scanner (text ++ rest) →
    ∃ value after, action tokens = .ok value after ∧ post value ∧ after.At scanner rest

section Steps

variable {type : TokenType} {data : Word} {word rest : Text}

theorem at_type (lexeme : Lexeme type data word rest) (tokens : Tokens) (scanner : Scanner)
    (here : tokens.At scanner (word ++ rest)) : tokens.next.type = type := by
  rw [(at_lexeme lexeme tokens scanner here).1]

theorem at_data (lexeme : Lexeme type data word rest) (tokens : Tokens) (scanner : Scanner)
    (here : tokens.At scanner (word ++ rest)) : tokens.next.data = data := by
  rw [(at_lexeme lexeme tokens scanner here).1]

theorem at_advance (lexeme : Lexeme type data word rest) (tokens : Tokens) (scanner : Scanner)
    (here : tokens.At scanner (word ++ rest)) : tokens.advance.At scanner rest :=
  (at_lexeme lexeme tokens scanner here).2

end Steps

theorem stops_char (c : Char) (rest : Text) (other : isIdentifier c = false) : Stops (c :: rest) := by
  intro d head
  cases head
  exact other

theorem bracket_num_reads (word rest : Text) (data : Word) (number : NumberWord word data) :
    Reads bracketNum ('[' :: word ++ [']']) rest (· = data) := by
  intro tokens scanner here
  have open_ := sign_lexeme .leftBracket (word ++ ']' :: rest) (by decide)
  have value := number (']' :: rest) (stops_char ']' rest (by decide))
  have close := sign_lexeme .rightBracket rest (by decide)
  have first : tokens.At scanner (TokenType.leftBracket.spelling ++ (word ++ ']' :: rest)) := by
    rw [List.append_assoc, List.cons_append] at here
    exact here
  have second := at_advance open_ tokens scanner first
  have third := at_advance value _ scanner second
  refine ⟨data, _, ?_, rfl, at_advance close _ scanner third⟩
  unfold bracketNum
  simp only [match_bind, match_number_bind, get_bind, ite_run, pure_run,
    at_type open_ tokens scanner first, at_type value _ scanner second,
    at_type close _ scanner third, if_true, Bool.not_true, Bool.false_eq_true, if_false]
  have held : tokens.advance.advance.advance.previous.data = data :=
    at_data value _ scanner second
  rw [held]

theorem paren_num_reads (word rest : Text) (data : Word) (number : NumberWord word data) :
    Reads parenNum ('(' :: word ++ [')']) rest (· = data) := by
  intro tokens scanner here
  have open_ := sign_lexeme .leftParen (word ++ ')' :: rest) (by decide)
  have value := number (')' :: rest) (stops_char ')' rest (by decide))
  have close := sign_lexeme .rightParen rest (by decide)
  have first : tokens.At scanner (TokenType.leftParen.spelling ++ (word ++ ')' :: rest)) := by
    rw [List.append_assoc, List.cons_append] at here
    exact here
  have second := at_advance open_ tokens scanner first
  have third := at_advance value _ scanner second
  refine ⟨data, _, ?_, rfl, at_advance close _ scanner third⟩
  unfold parenNum
  simp only [match_bind, match_number_bind, get_bind, ite_run, pure_run,
    at_type open_ tokens scanner first, at_type value _ scanner second,
    at_type close _ scanner third, if_true, Bool.not_true, Bool.false_eq_true, if_false]
  have held : tokens.advance.advance.advance.previous.data = data :=
    at_data value _ scanner second
  rw [held]

theorem index_reads (obj : Obj) (handler : Obj → Text) (rest : Text)
    (type : obj.type ∈ [.mem, .attrLowarg, .attrHigharg])
    (prints : Formatter.objPrint obj.type = some handler) :
    ∃ index, handler obj = obj.type.spelling ++ '[' :: index ∧
      Reads bracketNum ('[' :: index) rest (· = obj.data) := by
  simp only [List.mem_cons, List.not_mem_nil, or_false] at type
  rcases type with same | same | same <;> rw [same] at prints <;> cases prints
  · refine ⟨'0' :: 'x' :: hexText obj.data.toNat ++ [']'], ?_,
      bracket_num_reads _ rest obj.data (hex_word obj.data)⟩
    simp [Formatter.printHexBracket]
  · refine ⟨decText obj.data.toNat ++ [']'], ?_,
      bracket_num_reads _ rest obj.data (dec_word obj.data)⟩
    simp [Formatter.printDecBracket]
  · refine ⟨decText obj.data.toNat ++ [']'], ?_,
      bracket_num_reads _ rest obj.data (dec_word obj.data)⟩
    simp [Formatter.printDecBracket]

theorem left_mem (tokens after : Tokens) (data : Word) (mem : tokens.current.type = .mem)
    (ran : bracketNum tokens = .ok data after) :
    ∃ literal, left tokens = .ok { type := .mem, data, literal } after := by
  unfold left
  simp only [get_bind, mem, if_true, bind_run bracketNum, ran, literal_from_bind, pure_run]
  exact ⟨_, rfl⟩

theorem left_register (tokens : Tokens) (register : tokens.current.type ≠ .mem) :
    ∃ literal, left tokens = .ok { type := tokens.current.type, data := 0, literal } tokens := by
  unfold left
  simp only [get_bind, register, if_false, pure_bind, literal_from_bind, pure_run]
  exact ⟨_, rfl⟩

theorem left_reads (obj : Obj) (legible : obj.Legible) (type : obj.type ∈ [.A, .X, .mem])
    (text rest : Text) (printed : Formatter.objPrinter obj = some text)
    (tokens : Tokens) (scanner : Scanner) (here : tokens.At scanner (text ++ rest)) :
    tokens.next.type = obj.type ∧ ∃ value after, left tokens.advance = .ok value after ∧
      obj.Same value ∧ after.At scanner rest := by
  obtain ⟨handler, prints, rfl⟩ := Option.map_eq_some_iff.mp printed
  by_cases mem : obj.type = .mem
  · obtain ⟨index, shown, reads⟩ := index_reads obj handler rest (by simp [mem]) prints
    rw [shown, List.append_assoc] at here
    have name := variable_lexeme obj.type ('[' :: index ++ rest) (by rw [mem]; decide)
      (stops_char '[' _ (by decide))
    have first := at_type name tokens scanner here
    obtain ⟨_, after, ran, rfl, there⟩ := reads _ scanner (at_advance name tokens scanner here)
    obtain ⟨literal, ranLeft⟩ := left_mem tokens.advance after obj.data (first.trans mem) ran
    exact ⟨first, _, after, ranLeft, ⟨mem.symm, rfl⟩, there⟩
  · have register : obj.type ∈ [.A, .X] := by
      simp only [List.mem_cons, List.not_mem_nil, or_false] at type ⊢
      rcases type with a | x | m
      · exact Or.inl a
      · exact Or.inr x
      · exact absurd m mem
    have shown : handler obj = obj.type.spelling := by
      simp only [List.mem_cons, List.not_mem_nil, or_false] at register
      rcases register with same | same <;> rw [same] at prints <;> cases prints <;> rfl
    rw [shown] at here
    have name := register_lexeme obj.type rest register
    have first := at_type name tokens scanner here
    obtain ⟨literal, ranLeft⟩ := left_register tokens.advance (by
      rw [advance_current, first]
      exact mem)
    have none_ : obj.data = 0 := legible.plain (by
      simp only [List.mem_cons, List.not_mem_nil, or_false] at register
      rcases register with same | same <;> rw [same] <;> decide)
    exact ⟨first, _, _, ranLeft, ⟨first, none_.symm⟩, at_advance name tokens scanner here⟩

theorem right_word (tokens : Tokens)
    (word : tokens.next.type ∈ [.A, .X, .attrLen, .attrSyscall, .attrArch, .attrLowpc, .attrHighpc]) :
    ∃ literal, right tokens = .ok { type := tokens.next.type, data := 0, literal } tokens.advance := by
  unfold right
  simp only [get_bind, bind_assoc, match_from_to_bind, match_bind, match_number_bind, ite_run,
    ite_bind, pure_bind, error_next_bind, pure_run, advance_current, literal_from_bind, if_true,
    Bool.false_eq_true, if_false]
  simp only [List.mem_cons, List.not_mem_nil, or_false] at word
  rcases word with same | same | same | same | same | same | same <;> rw [same] <;> exact ⟨_, rfl⟩

theorem right_indexed (tokens after : Tokens) (data : Word)
    (word : tokens.next.type ∈ [.mem, .attrLowarg, .attrHigharg])
    (ran : bracketNum tokens.advance = .ok data after) :
    ∃ literal, right tokens = .ok { type := tokens.next.type, data, literal } after := by
  unfold right
  simp only [get_bind, bind_assoc, match_from_to_bind, match_bind, match_number_bind, ite_run,
    ite_bind, pure_bind, error_next_bind, pure_run, advance_current, literal_from_bind, if_true,
    Bool.false_eq_true, if_false, bind_run bracketNum, ran]
  simp only [List.mem_cons, List.not_mem_nil, or_false] at word
  rcases word with same | same | same <;> rw [same] <;> exact ⟨_, rfl⟩

theorem right_number (tokens : Tokens) (number : tokens.next.type = .number) :
    ∃ literal, right tokens =
      .ok { type := .number, data := tokens.next.data, literal } tokens.advance := by
  unfold right
  simp only [get_bind, bind_assoc, match_from_to_bind, match_bind, match_number_bind, ite_run,
    ite_bind, pure_bind, error_next_bind, pure_run, advance_current, literal_from_bind, if_true,
    Bool.false_eq_true, if_false]
  rw [number]
  exact ⟨_, rfl⟩

theorem right_reads (obj : Obj) (legible : obj.Legible) (type : obj.type ∈ rightTypes)
    (text rest : Text) (printed : Formatter.objPrinter obj = some text) (stops : Stops rest) :
    Reads right text rest obj.Same := by
  intro tokens scanner here
  obtain ⟨handler, prints, rfl⟩ := Option.map_eq_some_iff.mp printed
  by_cases number : obj.type = .number
  · rw [number] at prints
    cases prints
    have word := legible.number number rest stops
    obtain ⟨literal, ran⟩ := right_number tokens (at_type word tokens scanner here)
    exact ⟨_, _, ran, ⟨number.symm, at_data word tokens scanner here⟩,
      at_advance word tokens scanner here⟩
  · by_cases place : obj.type ∈ [.mem, .attrLowarg, .attrHigharg]
    · obtain ⟨index, shown, reads⟩ := index_reads obj handler rest place prints
      rw [shown, List.append_assoc] at here
      have known : ∀ type ∈ [TokenType.mem, .attrLowarg, .attrHigharg], type ∈ variableTokens := by
        decide
      have name := variable_lexeme obj.type ('[' :: index ++ rest) (known _ place)
        (stops_char '[' _ (by decide))
      have first := at_type name tokens scanner here
      obtain ⟨_, after, ran, rfl, there⟩ := reads _ scanner (at_advance name tokens scanner here)
      obtain ⟨literal, ranRight⟩ := right_indexed tokens after obj.data (first ▸ place) ran
      exact ⟨_, after, ranRight, ⟨first, rfl⟩, there⟩
    · have word : obj.type ∈ [.A, .X, .attrLen, .attrSyscall, .attrArch, .attrLowpc, .attrHighpc] := by
        have each : ∀ type ∈ rightTypes, type ≠ .number → type ∉ [.mem, .attrLowarg, .attrHigharg] →
            type ∈ [.A, .X, .attrLen, .attrSyscall, .attrArch, .attrLowpc, .attrHighpc] := by
          decide
        exact each _ type number place
      have shown : handler obj = obj.type.spelling ∧ obj.type ∉ .number :: indexed ∧
          (obj.type ∈ [.A, .X] ∨ obj.type ∈ variableTokens) := by
        simp only [List.mem_cons, List.not_mem_nil, or_false] at word
        rcases word with same | same | same | same | same | same | same <;> rw [same] at prints ⊢ <;>
          cases prints <;> exact ⟨by rw [← same]; rfl, by decide, by decide⟩
      rw [shown.1] at here
      have name : Lexeme obj.type 0 obj.type.spelling rest := by
        rcases shown.2.2 with register | variable_
        · exact register_lexeme obj.type rest register
        · exact variable_lexeme obj.type rest variable_ stops
      have first := at_type name tokens scanner here
      obtain ⟨literal, ran⟩ := right_word tokens (first ▸ word)
      exact ⟨_, _, ran, ⟨first, (legible.plain shown.2.1).symm⟩, at_advance name tokens scanner here⟩

theorem right_start (tokens after : Tokens) (value : Obj) (ran : right tokens = .ok value after) :
    tokens.next.type ∉ [.negative, .equal, .equalEqual] := by
  intro start
  unfold right at ran
  simp only [get_bind, bind_assoc, match_from_to_bind, match_bind, match_number_bind, ite_run,
    ite_bind, pure_bind, error_next_bind, pure_run, advance_current, literal_from_bind, if_true,
    Bool.false_eq_true, if_false] at ran
  simp only [List.mem_cons, List.not_mem_nil, or_false] at start
  rcases start with same | same | same <;> rw [same] at ran <;> cases ran

theorem operator_run (tokens : Tokens) :
    operator tokens =
      if tokens.next.type.fromTo .addTo .xorTo then .ok tokens.next.type tokens.advance
      else if tokens.next.type = .equal then
        if tokens.advance.next.type = .negative then .ok .negative tokens.advance.advance
        else .ok .equal tokens.advance
      else errorNext .expectOperator tokens := by
  unfold operator
  simp only [get_bind, match_from_to_bind, match_bind, ite_run, error_next_bind, pure_run,
    advance_current, Bool.not_true, Bool.not_false, if_true, Bool.false_eq_true, if_false]
  by_cases alu : tokens.next.type.fromTo .addTo .xorTo = true
  · rw [if_pos alu, if_pos alu]
  · rw [if_neg alu, if_neg alu]
    by_cases equal : tokens.next.type = .equal
    · rw [if_pos equal, if_pos equal]
      by_cases negative : tokens.advance.next.type = .negative
      · rw [if_pos negative, if_pos negative, negative]
      · rw [if_neg negative, if_neg negative, equal]
    · rw [if_neg equal, if_neg equal]
      rfl

theorem at_equal (tokens : Tokens) (scanner : Scanner) (text : Text)
    (here : tokens.At scanner ('=' :: text)) : tokens.next.type ∈ [.negative, .equal, .equalEqual] := by
  cases text with
  | nil =>
      have lexeme : Lexeme .equal 0 ['='] [] :=
        { starts := ⟨'=', rfl, by decide, by decide⟩, scanned := rfl }
      rw [at_type lexeme tokens scanner here]
      decide
  | cons c later =>
      by_cases twice : c = '='
      · subst twice
        have lexeme : Lexeme .equalEqual 0 ['=', '='] later :=
          { starts := ⟨'=', rfl, by decide, by decide⟩, scanned := rfl }
        rw [at_type lexeme tokens scanner here]
        decide
      · have punct : scanPunct ('=' :: c :: later) = some (.equal, 1) := by
          unfold scanPunct
          split <;> simp_all [peekAt]
        have found : scanLexeme ('=' :: c :: later) =
            (scanPunct ('=' :: c :: later)).map fun found => (found.1, found.2, 0) := rfl
        have lexeme : Lexeme .equal 0 ['='] (c :: later) :=
          { starts := ⟨'=', rfl, by decide, by decide⟩
            scanned := by
              rw [List.singleton_append, found, punct]
              rfl }
        rw [at_type lexeme tokens scanner here]
        decide

theorem at_some (scanner : Scanner) (text : Text) : ∃ tokens : Tokens, tokens.At scanner text :=
  ⟨{ previous := zeroToken, current := zeroToken
     next := (scanToken { scanner with rest := some text }).1
     scanner := (scanToken { scanner with rest := some text }).2 }, rfl⟩

theorem right_text_start (text rest : Text) (post : Obj → Prop) (reads : Reads right text rest post)
    (scanner : Scanner) : peekAt (text ++ rest) 0 ≠ '=' := by
  intro equal
  obtain ⟨tokens, here⟩ := at_some scanner (text ++ rest)
  obtain ⟨value, after, ran, _⟩ := reads tokens scanner here
  cases shape : text ++ rest with
  | nil =>
      rw [shape] at equal
      cases equal
  | cons c later =>
      rw [shape] at equal here
      have same : c = '=' := equal
      rw [same] at here
      exact right_start tokens after value ran (at_equal tokens scanner later here)

/-- How the operator is printed, with the blank or the sign in front of the right side. -/
def operatorText (operator : TokenType) : Text :=
  if operator = .negative then ['=', ' ', '-'] else operator.spelling ++ [' ']

theorem operator_reads (type : TokenType) (known : type ∈ .equal :: .negative :: aluOperators)
    (text rest : Text) (post : Obj → Prop) (reads : Reads right text rest post)
    (tokens : Tokens) (scanner : Scanner)
    (here : tokens.At scanner (operatorText type ++ (text ++ rest))) :
    ∃ after, operator tokens = .ok type after ∧ after.At scanner (text ++ rest) := by
  have start (other : Tokens) (there : other.At scanner (text ++ rest)) :
      other.next.type ≠ .negative := by
    obtain ⟨value, after, ran, _⟩ := reads other scanner there
    have no := right_start other after value ran
    intro same
    rw [same] at no
    exact no (by decide)
  unfold operatorText at here
  rw [operator_run]
  by_cases negative : type = .negative
  · subst negative
    rw [if_pos rfl] at here
    have equal := operator_lexeme .equal ('-' :: (text ++ rest)) (by decide)
    have minus := negative_lexeme (text ++ rest) (right_text_start text rest post reads scanner)
    have first := at_type equal tokens scanner here
    have second := (at_blank _ _ _).mp (at_advance equal tokens scanner here)
    rw [first, at_type minus _ scanner second]
    exact ⟨_, rfl, at_advance minus _ scanner second⟩
  · rw [if_neg negative, List.append_assoc] at here
    have listed : type ∈ .equal :: aluOperators := by
      simp only [List.mem_cons] at known ⊢
      rcases known with equal | other | alu
      · exact Or.inl equal
      · exact absurd other negative
      · exact Or.inr alu
    have among : type ∈ .equal :: (comparators ++ aluOperators) := by
      simp only [List.mem_cons, List.mem_append] at listed ⊢
      rcases listed with equal | alu
      · exact Or.inl equal
      · exact Or.inr (Or.inr alu)
    have lexeme := operator_lexeme type (text ++ rest) among
    have first := at_type lexeme tokens scanner here
    have second := (at_blank _ _ _).mp (at_advance lexeme tokens scanner here)
    rcases List.mem_cons.mp listed with equal | alu
    · rw [first, equal, if_neg (by decide), if_pos rfl, if_neg (start _ second)]
      exact ⟨_, rfl, second⟩
    · rw [first, if_pos ((alu_operator_range type).mpr alu)]
      exact ⟨_, rfl, second⟩

theorem assign_reads (line : AssignLine) (shaped : line.Shaped) (left_ : line.leftVar.Legible)
    (right_ : line.rightVar.Legible) (text rest : Text)
    (printed : Formatter.assignLine line = some text) (stops : Stops rest)
    (tokens : Tokens) (scanner : Scanner) (here : tokens.At scanner (text ++ rest)) :
    tokens.next.type ∈ [.A, .X, .mem] ∧ ∃ value after,
      assignLine tokens.advance = .ok (.assign value) after ∧ after.At scanner rest ∧
      line.leftVar.Same value.leftVar ∧ value.operator = line.operator ∧
      line.rightVar.Same value.rightVar := by
  unfold Formatter.assignLine at printed
  cases shownLeft : Formatter.objPrinter line.leftVar with
  | none => simp [shownLeft] at printed
  | some leftText =>
      cases shownRight : Formatter.objPrinter line.rightVar with
      | none => simp [shownLeft, shownRight] at printed
      | some rightText =>
          simp only [shownLeft, shownRight, Option.some.injEq] at printed
          subst printed
          rw [List.append_assoc, List.append_assoc, List.cons_append] at here
          obtain ⟨first, leftValue, s1, ranLeft, sameLeft, behind⟩ :=
            left_reads line.leftVar left_ shaped.left leftText _ shownLeft tokens scanner here
          have reads := right_reads line.rightVar right_ shaped.right rightText rest shownRight stops
          obtain ⟨s2, ranOperator, there⟩ := operator_reads line.operator shaped.operator rightText rest
            _ reads s1 scanner ((at_blank _ _ _).mp behind)
          obtain ⟨rightValue, s3, ranRight, sameRight, last⟩ := reads s2 scanner there
          refine ⟨first ▸ shaped.left,
            { leftVar := leftValue, operator := line.operator, rightVar := rightValue }, s3, ?_, last,
            sameLeft, rfl, sameRight⟩
          unfold assignLine
          simp only [bind_run, ranLeft, ranOperator, ranRight, pure_run]

theorem label_reads (name rest : Text) (plain : PlainName name) (stops : Stops rest)
    (colon : peekAt rest 0 ≠ ':') :
    Reads label name rest (· = { key := some name, codeNr := 0 }) := by
  intro tokens scanner here
  have lexeme := name_lexeme name rest plain stops colon
  obtain ⟨next, there⟩ := at_lexeme lexeme tokens scanner here
  refine ⟨_, tokens.advance, ?_, rfl, there⟩
  have type : tokens.next.type = .identifier := by rw [next]
  have text : tokens.next.text = name := by
    rw [next]
    exact List.take_left
  unfold label
  simp only [match_bind, get_bind, ite_run, pure_run, type, if_true, Bool.not_true,
    Bool.false_eq_true, if_false, advance_current, text]

/-- The parser reads the operand of a comparison as this object. -/
def OperandReads (lib : Libseccomp) (localArch : Word) (text : Text) (obj : Obj) : Prop :=
  ∀ rest, Reads (compareObj lib localArch) text (')' :: rest) fun value => obj.Same value.1

section Conditions

variable (lib : Libseccomp) (localArch : Word)

def conditionText (ifBang : Bool) (comparator : TokenType) (operand : Text) : Text :=
  (if ifBang then TokenType.bang.spelling else []) ++ (TokenType.leftParen.spelling ++
    TokenType.A.spelling ++ ' ' :: comparator.spelling ++ ' ' :: operand ++
    TokenType.rightParen.spelling)

/-- A printed condition is read up to its operand; what follows is up to `compare_obj`. -/
theorem condition_starts (ifBang : Bool) (comparator : TokenType) (known : comparator ∈ comparators)
    (operand rest : Text) (tokens : Tokens) (scanner : Scanner)
    (here : tokens.At scanner (conditionText ifBang comparator operand ++ rest)) :
    ∃ t : Tokens, t.At scanner (operand ++ ')' :: rest) ∧
      (∀ value after, compareObj lib localArch t = .ok value after → after.next.type = .rightParen →
        condition lib localArch tokens =
          .ok { ifBang, ifCondition := true, cmptype := value.2, comparator, cmpobj := value.1
                jt := .zero, jf := .zero } after.advance) ∧
      ∀ line last, condition lib localArch tokens = .ok line last →
        ∃ value after, compareObj lib localArch t = .ok value after ∧ line.cmpobj = value.1 := by
  -- the parser stands in front of the parenthesis, the bang being taken
  obtain ⟨s, start, opened⟩ : ∃ s : Tokens, s.At scanner (TokenType.leftParen.spelling ++
      (TokenType.A.spelling ++ ' ' :: comparator.spelling ++ (' ' :: operand ++ ')' :: rest))) ∧
      ∀ next : Bool → Parse JumpLine, (match_ .bang >>= next) tokens = next ifBang s := by
    unfold conditionText at here
    simp only [List.append_assoc] at here ⊢
    cases ifBang with
    | true =>
        have sign := bang_lexeme (TokenType.A.spelling ++ (' ' :: comparator.spelling ++
          (' ' :: operand ++ ')' :: rest)))
        refine ⟨tokens.advance, at_advance sign tokens scanner here, fun next => ?_⟩
        rw [match_bind, at_type sign tokens scanner here, if_pos rfl]
    | false =>
        refine ⟨tokens, here, fun next => ?_⟩
        have paren := sign_lexeme .leftParen (TokenType.A.spelling ++ (' ' :: comparator.spelling ++
          (' ' :: operand ++ ')' :: rest))) (by decide)
        rw [match_bind, at_type paren tokens scanner here, if_neg (by decide)]
  have paren := sign_lexeme .leftParen (TokenType.A.spelling ++ ' ' :: comparator.spelling ++
    (' ' :: operand ++ ')' :: rest)) (by decide)
  have second := at_advance paren s scanner start
  rw [List.append_assoc] at second
  have register := register_lexeme .A (' ' :: (comparator.spelling ++ (' ' :: operand ++ ')' :: rest)))
    (by decide)
  have sign := operator_lexeme comparator (operand ++ ')' :: rest)
    (List.mem_cons_of_mem _ (List.mem_append_left _ known))
  have third := (at_blank _ _ _).mp (at_advance register _ scanner second)
  have fourth := (at_blank _ _ _).mp (at_advance sign _ scanner third)
  refine ⟨_, fourth, fun value after ran closed => ?_, fun line last ran => ?_⟩
  · unfold condition
    rw [opened]
    simp only [match_bind, match_from_to_bind, get_bind, ite_run, bind_run (compareObj lib localArch),
      at_type paren s scanner start, at_type register _ scanner second, at_type sign _ scanner third,
      (comparator_range comparator).mpr known, ran, closed, pure_run, advance_current, if_true,
      Bool.not_true, Bool.false_eq_true, if_false]
  · unfold condition at ran
    rw [opened] at ran
    simp only [match_bind, match_from_to_bind, get_bind, ite_run,
      at_type paren s scanner start, at_type register _ scanner second, at_type sign _ scanner third,
      (comparator_range comparator).mpr known, advance_current, if_true,
      Bool.not_true, Bool.false_eq_true, if_false] at ran
    obtain ⟨value, after, compared, ran⟩ := (bind_ok ..).mp ran
    simp only [match_bind, ite_run, error_next_bind] at ran
    split at ran
    · cases ran
      exact ⟨value, after, compared, rfl⟩
    · cases ran

theorem condition_reads (ifBang : Bool) (comparator : TokenType) (known : comparator ∈ comparators)
    (operand rest : Text) (obj : Obj) (reads : OperandReads lib localArch operand obj) :
    Reads (condition lib localArch) (conditionText ifBang comparator operand) rest fun line =>
      line.ifBang = ifBang ∧ line.ifCondition = true ∧ line.comparator = comparator ∧
        obj.Same line.cmpobj ∧ line.jf = .zero := by
  intro tokens scanner here
  obtain ⟨t, there, runs, _⟩ := condition_starts lib localArch ifBang comparator known operand rest
    tokens scanner here
  obtain ⟨value, after, ran, same, closing⟩ := reads rest t scanner there
  have close := sign_lexeme .rightParen rest (by decide)
  exact ⟨_, _, runs value after ran (at_type close after scanner closing),
    ⟨rfl, rfl, rfl, same, rfl⟩, at_advance close after scanner closing⟩

end Conditions

def Tail (rest : Text) : Prop := rest = [] ∨ ∃ comment, rest = ' ' :: '#' :: comment

theorem tail_stops (rest : Text) (tail : Tail rest) : Stops rest ∧ peekAt rest 0 ≠ ':' := by
  rcases tail with rfl | ⟨comment, rfl⟩
  · exact ⟨nofun, by decide⟩
  · exact ⟨stops_char ' ' _ (by decide), by simp [peekAt]⟩

theorem at_end (tokens : Tokens) (scanner : Scanner) (here : tokens.At scanner []) :
    tokens.next.type = .eol := by
  unfold Tokens.At at here
  exact (congrArg (fun both => both.1.type) here).symm

theorem at_comment (tokens : Tokens) (scanner : Scanner) (comment : Text)
    (here : tokens.At scanner ('#' :: comment)) :
    tokens.next.type = .comment ∧ tokens.advance.At scanner [] := by
  have scanned : scanToken { scanner with rest := some ('#' :: comment) } =
      ({ type := .comment, start := '#' :: comment, len := comment.length + 1
         lineNr := scanner.lineNr, data := 0 }, { scanner with rest := some [] }) := rfl
  unfold Tokens.At at here
  rw [scanned, Prod.mk.injEq] at here
  refine ⟨by rw [← here.1], ?_⟩
  unfold Tokens.At Tokens.advance
  rw [← here.2]

theorem at_tail (tokens : Tokens) (scanner : Scanner) (rest : Text) (tail : Tail rest)
    (here : tokens.At scanner rest) : tokens.next.type = .eol ∨ tokens.next.type = .comment := by
  rcases tail with rfl | ⟨comment, rfl⟩
  · exact Or.inl (at_end tokens scanner here)
  · exact Or.inr (at_comment tokens scanner comment ((at_blank _ _ _).mp here)).1

theorem keyword_lexeme (type : TokenType) (rest : Text) (keyword : type ∈ keywords) :
    Lexeme type 0 type.spelling (' ' :: rest) :=
  reserved_lexeme type (' ' :: rest) (keyword_reserved type keyword) (stops_char ' ' rest (by decide))

theorem goto_reads (name rest : Text) (plain : PlainName name) (stops : Stops rest)
    (colon : peekAt rest 0 ≠ ':') (tokens : Tokens) (scanner : Scanner)
    (here : tokens.At scanner (TokenType.goto.spelling ++ ' ' :: name ++ rest)) :
    tokens.next.type = .goto ∧ ∃ after,
      label tokens.advance = .ok { key := some name, codeNr := 0 } after ∧ after.At scanner rest := by
  rw [List.append_assoc] at here
  have word := keyword_lexeme .goto (name ++ rest) (by decide)
  have second := (at_blank _ _ _).mp (at_advance word tokens scanner here)
  obtain ⟨_, after, ran, rfl, there⟩ := label_reads name rest plain stops colon _ scanner second
  exact ⟨at_type word tokens scanner here, after, ran, there⟩

theorem ja_reads (name rest : Text) (plain : PlainName name) (tail : Tail rest) (tokens : Tokens)
    (scanner : Scanner) (here : tokens.At scanner (TokenType.goto.spelling ++ ' ' :: name ++ rest)) :
    tokens.next.type = .goto ∧ ∃ value after, jaLine tokens.advance = .ok (.jump value) after ∧
      after.At scanner rest ∧ value.ifBang = false ∧ value.ifCondition = false ∧
      value.jt.key = some name ∧ value.jf.key = none := by
  obtain ⟨stops, colon⟩ := tail_stops rest tail
  obtain ⟨first, after, ran, there⟩ := goto_reads name rest plain stops colon tokens scanner here
  refine ⟨first, { ifBang := false, ifCondition := false, cmptype := .number
                   comparator := .archX86, cmpobj := .of .archX86
                   jt := { key := some name, codeNr := 0 }, jf := .zero },
    after, ?_, there, rfl, rfl, rfl, rfl⟩
  unfold jaLine
  simp only [bind_run, ran, pure_run]

/-- The branch that is printed unless it leads to the next statement. -/
def elseText : Option Text → Text
  | none => []
  | some name => TokenType.comma.spelling ++ ' ' :: TokenType.else_.spelling ++
      ' ' :: TokenType.goto.spelling ++ ' ' :: name

theorem jump_reads (lib : Libseccomp) (localArch : Word) (ifBang : Bool) (comparator : TokenType)
    (known : comparator ∈ comparators) (operand rest : Text) (obj : Obj)
    (reads : OperandReads lib localArch operand obj) (name : Text) (plain : PlainName name)
    (other : Option Text) (plainElse : ∀ key, other = some key → PlainName key) (tail : Tail rest)
    (tokens : Tokens) (scanner : Scanner)
    (here : tokens.At scanner (TokenType.if_.spelling ++ ' ' :: conditionText ifBang comparator operand ++
      ' ' :: (TokenType.goto.spelling ++ ' ' :: name) ++ elseText other ++ rest)) :
    tokens.next.type = .if_ ∧ ∃ value after,
      jumpLine lib localArch tokens.advance = .ok (.jump value) after ∧ after.At scanner rest ∧
      value.ifBang = ifBang ∧ value.ifCondition = true ∧ value.comparator = comparator ∧
      obj.Same value.cmpobj ∧ value.jt.key = some name ∧ value.jf.key = other := by
  rw [List.append_assoc, List.append_assoc, List.append_assoc] at here
  have word := keyword_lexeme .if_ (conditionText ifBang comparator operand ++
    (' ' :: (TokenType.goto.spelling ++ ' ' :: name) ++ (elseText other ++ rest))) (by decide)
  have second := (at_blank _ _ _).mp (at_advance word tokens scanner here)
  obtain ⟨line, s1, ranCondition, ⟨bang, conditional, same, cmpobj, noElse⟩, third⟩ :=
    condition_reads lib localArch ifBang comparator known operand _ obj reads _ scanner second
  obtain ⟨stopsRest, colonRest⟩ := tail_stops rest tail
  have ends : Stops (elseText other ++ rest) ∧ peekAt (elseText other ++ rest) 0 ≠ ':' := by
    cases other with
    | none => exact ⟨stopsRest, colonRest⟩
    | some key =>
        have sign : peekAt (elseText (some key) ++ rest) 0 = ',' := rfl
        exact ⟨stops_char ',' _ (by decide), by rw [sign]; decide⟩
  obtain ⟨goto_, s2, ranLabel, fourth⟩ := goto_reads name _ plain ends.1 ends.2 s1 scanner
    ((at_blank _ _ _).mp third)
  refine ⟨at_type word tokens scanner here, ?_⟩
  cases other with
  | none =>
      have last : s2.next.type ≠ .comma := by
        rcases at_tail s2 scanner rest tail fourth with eol | comment
        · simp [eol]
        · simp [comment]
      refine ⟨{ line with jt := { key := some name, codeNr := 0 } }, s2, ?_, fourth, bang, conditional,
        same, cmpobj, rfl, by rw [noElse]; rfl⟩
      unfold jumpLine
      simp only [bind_run, ranCondition, match_run, goto_, ranLabel, last, if_true, if_false,
        Bool.not_true, Bool.not_false, Bool.false_eq_true, pure_run]
  | some key =>
      unfold elseText at fourth
      rw [List.append_assoc, List.append_assoc, List.append_assoc] at fourth
      have comma := sign_lexeme .comma (' ' :: TokenType.else_.spelling ++
        (' ' :: TokenType.goto.spelling ++ (' ' :: key ++ rest))) (by decide)
      have else_ := keyword_lexeme .else_ (TokenType.goto.spelling ++ (' ' :: key ++ rest)) (by decide)
      have fifth := (at_blank _ _ _).mp (at_advance comma s2 scanner fourth)
      have sixth := (at_blank _ _ _).mp (at_advance else_ _ scanner fifth)
      rw [← List.append_assoc] at sixth
      obtain ⟨again, s3, ranElse, last⟩ := goto_reads key rest (plainElse key rfl) stopsRest colonRest
        _ scanner sixth
      refine ⟨{ line with jt := { key := some name, codeNr := 0 }, jf := { key := some key, codeNr := 0 } },
        s3, ?_, last, bang, conditional, same, cmpobj, rfl, rfl⟩
      unfold jumpLine
      simp only [bind_run, ranCondition, match_run, goto_, ranLabel, ranElse, again,
        at_type comma s2 scanner fourth, at_type else_ _ scanner fifth, if_true, if_false,
        Bool.not_true, Bool.false_eq_true, pure_run]

def returnTypes : List TokenType :=
  [.A, .number, .trace, .trap, .errno, .killProc, .kill, .allow, .notify, .log]

theorem return_carrying (tokens after : Tokens) (data : Word)
    (action : tokens.next.type ∈ [.trace, .trap, .errno])
    (ran : parenNum tokens.advance = .ok data after) :
    ∃ line, returnLine tokens = .ok (.return_ line) after ∧ line.retObj.type = tokens.next.type ∧
      line.retObj.data = data := by
  unfold returnLine
  simp only [bind_assoc, get_bind, match_from_to_bind, match_bind, match_number_bind,
    literal_from_bind, pure_bind, ite_run, ite_bind, error_next_bind, if_true, Bool.false_eq_true,
    if_false, pure_run, advance_current, (data_action_range _).mpr action, bind_run parenNum, ran]
  exact ⟨_, rfl, rfl, rfl⟩

theorem return_word (tokens : Tokens)
    (word : tokens.next.type ∈ [.A, .killProc, .kill, .allow, .notify, .log]) :
    ∃ line, returnLine tokens = .ok (.return_ line) tokens.advance ∧
      line.retObj.type = tokens.next.type ∧ line.retObj.data = 0 := by
  unfold returnLine
  simp only [bind_assoc, get_bind, match_from_to_bind, match_bind, match_number_bind,
    literal_from_bind, pure_bind, ite_run, ite_bind, error_next_bind, if_true, Bool.false_eq_true,
    if_false, pure_run, advance_current]
  simp only [List.mem_cons, List.not_mem_nil, or_false] at word
  rcases word with same | same | same | same | same | same <;> rw [same] <;>
    exact ⟨_, rfl, rfl, rfl⟩

theorem return_number (tokens : Tokens) (number : tokens.next.type = .number) :
    ∃ line, returnLine tokens = .ok (.return_ line) tokens.advance ∧ line.retObj.type = .number ∧
      line.retObj.data = tokens.next.data := by
  unfold returnLine
  simp only [bind_assoc, get_bind, match_from_to_bind, match_bind, match_number_bind,
    literal_from_bind, pure_bind, ite_run, ite_bind, error_next_bind, if_true, Bool.false_eq_true,
    if_false, pure_run, advance_current]
  rw [number]
  exact ⟨_, rfl, rfl, rfl⟩

theorem return_reads (obj : Obj) (legible : obj.Legible) (type : obj.type ∈ returnTypes)
    (text rest : Text) (printed : Formatter.objPrinter obj = some text) (stops : Stops rest)
    (tokens : Tokens) (scanner : Scanner)
    (here : tokens.At scanner (TokenType.return_.spelling ++ ' ' :: text ++ rest)) :
    tokens.next.type = .return_ ∧ ∃ line after, returnLine tokens.advance = .ok (.return_ line) after ∧
      obj.Same line.retObj ∧ after.At scanner rest := by
  rw [List.append_assoc] at here
  have keyword := keyword_lexeme .return_ (text ++ rest) (by decide)
  have second := (at_blank _ _ _).mp (at_advance keyword tokens scanner here)
  refine ⟨at_type keyword tokens scanner here, ?_⟩
  obtain ⟨handler, prints, rfl⟩ := Option.map_eq_some_iff.mp printed
  have kinds : ∀ type ∈ returnTypes, type = .number ∨ type ∈ [.trace, .trap, .errno] ∨
      type ∈ [.A, .killProc, .kill, .allow, .notify, .log] := by
    decide
  rcases kinds _ type with number | action | word
  · rw [number] at prints
    cases prints
    have lexeme := legible.number number rest stops
    obtain ⟨line, ran, kind, data⟩ := return_number _ (at_type lexeme _ scanner second)
    exact ⟨line, _, ran, ⟨kind.trans number.symm, data.trans (at_data lexeme _ scanner second)⟩,
      at_advance lexeme _ scanner second⟩
  · have shown : handler obj = obj.type.spelling ++ ('(' :: decText obj.data.toNat ++ [')']) := by
      have known := action
      simp only [List.mem_cons, List.not_mem_nil, or_false] at known
      rcases known with same | same | same <;> rw [same] at prints <;> cases prints <;>
        simp [Formatter.printParen]
    rw [shown, List.append_assoc] at second
    have known : ∀ type ∈ [TokenType.trace, .trap, .errno], type ∈ reservedTokens := by decide
    have name := reserved_lexeme obj.type ('(' :: decText obj.data.toNat ++ [')'] ++ rest)
      (known _ action) (stops_char '(' _ (by decide))
    have first := at_type name _ scanner second
    obtain ⟨_, after, ran, rfl, there⟩ := paren_num_reads _ rest obj.data (dec_word obj.data) _ scanner
      (at_advance name _ scanner second)
    obtain ⟨line, ranReturn, kind, data⟩ := return_carrying _ after _ (first ▸ action) ran
    exact ⟨line, after, ranReturn, ⟨kind.trans first, data⟩, there⟩
  · have shown : handler obj = obj.type.spelling ∧ obj.type ∉ .number :: indexed ∧
        Lexeme obj.type 0 obj.type.spelling rest := by
      have known := word
      simp only [List.mem_cons, List.not_mem_nil, or_false] at known
      rcases known with same | same | same | same | same | same <;> rw [same] at prints ⊢ <;>
        cases prints <;> refine ⟨by rw [← same]; rfl, by decide, ?_⟩
      · exact register_lexeme .A rest (by decide)
      all_goals exact reserved_lexeme _ rest (by decide) stops
    obtain ⟨spelled, plain, name⟩ := shown
    rw [spelled] at second
    have first := at_type name _ scanner second
    obtain ⟨line, ran, kind, data⟩ := return_word _ (first ▸ word)
    exact ⟨line, _, ran, ⟨kind.trans first, data.trans (legible.plain plain).symm⟩,
      at_advance name _ scanner second⟩

end Parser

end Ceccomp
