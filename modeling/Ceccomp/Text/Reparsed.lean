import Ceccomp.Text.Printed

/-!
`parse_line` on a printed statement, with its label and the columns in front of it.
-/

namespace Ceccomp

/-- What a jump must be like for its text to say what it does. -/
structure JumpLine.Legible (lib : Libseccomp) (localArch : Word) (pc : Nat) (line : JumpLine) :
    Prop where
  jt : PlainName (Formatter.printLabel line.jt pc)
  jf : line.jf.codeNr ≠ 0 → PlainName (Formatter.printLabel line.jf pc)
  comparator : line.ifCondition = true → line.comparator ∈ comparators
  operand : line.ifCondition = true → ∃ text, Formatter.objPrinter line.cmpobj = some text ∧
    Parser.OperandReads lib localArch text line.cmpobj

def Line.Legible (lib : Libseccomp) (localArch : Word) (pc : Nat) : Line → Prop
  | .assign line => line.Shaped ∧ line.leftVar.Legible ∧ line.rightVar.Legible
  | .jump line => line.Legible lib localArch pc
  | .return_ line => line.retObj.type ∈ Parser.returnTypes ∧ line.retObj.Legible
  | .empty => True
  | .eof | .error _ => False

/-- `again` says what `line` does; labels are the ones that were printed. -/
inductive Line.Restated (pc : Nat) : Line → Line → Prop where
  | assign (line again : AssignLine) (left : line.leftVar.Same again.leftVar)
      (operator : again.operator = line.operator) (right : line.rightVar.Same again.rightVar) :
      Restated pc (.assign line) (.assign again)
  | ja (line again : JumpLine) (always : line.ifCondition = false) (plain : again.ifCondition = false)
      (ifBang : again.ifBang = false) (jt : again.jt.key = some (Formatter.printLabel line.jt pc))
      (jf : again.jf.key = none) : Restated pc (.jump line) (.jump again)
  | jump (line again : JumpLine) (conditional : line.ifCondition = true)
      (also : again.ifCondition = true) (ifBang : again.ifBang = line.ifBang)
      (comparator : again.comparator = line.comparator) (operand : line.cmpobj.Same again.cmpobj)
      (jt : again.jt.key = some (Formatter.printLabel line.jt pc))
      (jf : again.jf.key =
        if line.jf.codeNr = 0 then none else some (Formatter.printLabel line.jf pc)) :
      Restated pc (.jump line) (.jump again)
  | return_ (line again : ReturnLine) (same : line.retObj.Same again.retObj) :
      Restated pc (.return_ line) (.return_ again)
  | empty : Restated pc .empty .empty

/-- The line without its comment, as `print_statement` writes it. -/
def Formatter.lineText (line : Line) (pc : Nat) : Option Text :=
  match line with
  | .assign line => Formatter.assignLine line
  | .jump line => Formatter.jumpLine line pc
  | .return_ line => Formatter.returnLine line
  | .empty => some []
  | .error _ | .eof => none

theorem print_statement_text (statement : Statement) :
    printStatement statement =
      (Formatter.lineText statement.line statement.codeNr).map
        fun text => text ++ Formatter.printComment statement ++ ['\n'] := by
  unfold printStatement Formatter.lineText
  cases statement.line <;> rfl

def starters : List TokenType := [.return_, .if_, .goto, .A, .X, .mem, .eol, .comment]

namespace Parser

variable (lib : Libseccomp) (localArch : Word)

theorem jump_text (line : JumpLine) (pc : Nat) (text : Text)
    (conditional : line.ifCondition = true) (printed : Formatter.jumpLine line pc = some text) :
    ∃ operand, Formatter.objPrinter line.cmpobj = some operand ∧
      text = TokenType.if_.spelling ++ ' ' :: conditionText line.ifBang line.comparator operand ++
        ' ' :: (TokenType.goto.spelling ++ ' ' :: Formatter.printLabel line.jt pc) ++
        elseText (if line.jf.codeNr = 0 then none else some (Formatter.printLabel line.jf pc)) := by
  unfold Formatter.jumpLine at printed
  rw [if_neg (by simp [conditional])] at printed
  have register : Formatter.objPrinter (.of .A) = some TokenType.A.spelling := rfl
  rw [register] at printed
  cases shown : Formatter.objPrinter line.cmpobj with
  | none => simp [shown] at printed
  | some operand =>
      refine ⟨operand, rfl, ?_⟩
      simp only [shown] at printed
      unfold conditionText elseText
      by_cases next : line.jf.codeNr = 0
      · rw [if_pos next] at printed ⊢
        rw [← Option.some.inj printed]
        simp
      · rw [if_neg next] at printed ⊢
        rw [← Option.some.inj printed]
        simp

theorem line_reads (line : Line) (pc : Nat) (legible : line.Legible lib localArch pc)
    (text rest : Text) (printed : Formatter.lineText line pc = some text) (tail : Tail rest)
    (proper : line ≠ .empty) (codeNr : Nat) (few : codeNr ≤ bpfMaxInsns)
    (tokens : Tokens) (scanner : Scanner) (here : tokens.At scanner (text ++ rest)) :
    tokens.next.type ∈ starters ∧ ∃ again after,
      Parser.line lib localArch codeNr tokens = .ok again after ∧ line.Restated pc again ∧
      after.At scanner rest := by
  obtain ⟨stops, _⟩ := tail_stops rest tail
  have many : ¬ codeNr > bpfMaxInsns := Nat.not_lt.mpr few
  -- the first token of the text decides which line the parser reads
  cases line with
  | assign line =>
      obtain ⟨shaped, left_, right_⟩ := legible
      obtain ⟨first, again, after, ran, there, sameLeft, operator, sameRight⟩ :=
        assign_reads line shaped left_ right_ text rest printed stops tokens scanner here
      have starts : ∀ type ∈ [TokenType.A, .X, .mem], type ∈ starters ∧ type ≠ .eol ∧
          type ≠ .comment ∧ type ≠ .tokenEof ∧ type ≠ .return_ ∧ type ≠ .if_ ∧ type ≠ .goto ∧
          type.fromTo .A .mem = true := by
        decide
      obtain ⟨starter, eol, comment, eof, ret, if_, goto_, range⟩ := starts _ first
      refine ⟨starter, _, after, ?_, .assign line again sameLeft operator sameRight, there⟩
      rw [line_run]
      simp only [eol, comment, eof, many, ret, if_, goto_, range, or_self, if_false, if_true, ran]
  | jump line =>
      have printed : Formatter.jumpLine line pc = some text := printed
      by_cases conditional : line.ifCondition = true
      · obtain ⟨operand, shown, rfl⟩ := jump_text line pc text conditional printed
        obtain ⟨own, shownOwn, reads⟩ := legible.operand conditional
        obtain rfl : own = operand := Option.some.inj (shownOwn.symm.trans shown)
        have plainElse (key : Text) (same : (if line.jf.codeNr = 0 then none else
            some (Formatter.printLabel line.jf pc)) = some key) : PlainName key := by
          split at same
          · cases same
          · next far =>
              cases same
              exact legible.jf far
        obtain ⟨first, again, after, ran, there, bang, also, comparator, same, jt, jf⟩ :=
          jump_reads lib localArch line.ifBang line.comparator (legible.comparator conditional) own rest
            line.cmpobj reads _ legible.jt _ plainElse tail tokens scanner here
        refine ⟨first ▸ (by decide), _, after, ?_,
          .jump line again conditional also bang comparator same jt jf, there⟩
        rw [line_run, first]
        simp only [many, reduceCtorEq, or_self, if_false, if_true, ran]
      · have always : line.ifCondition = false := by simpa using conditional
        have shown : text = TokenType.goto.spelling ++ ' ' :: Formatter.printLabel line.jt pc := by
          unfold Formatter.jumpLine at printed
          rw [if_pos (by simp [always])] at printed
          exact (Option.some.inj printed).symm
        subst shown
        obtain ⟨first, again, after, ran, there, bang, plain, jt, jf⟩ :=
          ja_reads _ rest legible.jt tail tokens scanner here
        refine ⟨first ▸ (by decide), _, after, ?_, .ja line again always plain bang jt jf, there⟩
        rw [line_run, first]
        simp only [many, reduceCtorEq, or_self, if_false, if_true, ran]
  | return_ line =>
      obtain ⟨kind, readable⟩ := legible
      obtain ⟨shown, printedObj, rfl⟩ := Option.map_eq_some_iff.mp printed
      obtain ⟨first, again, after, ran, same, there⟩ :=
        return_reads line.retObj readable kind shown rest printedObj stops tokens scanner here
      refine ⟨first ▸ (by decide), _, after, ?_, .return_ line again same, there⟩
      rw [line_run, first]
      simp only [many, reduceCtorEq, or_self, if_false, if_true, ran]
  | empty => exact absurd rfl proper
  | eof | error line => exact absurd legible id

/-- The parser stands at the start of the line behind the scanner's. -/
def AtNext (tokens : Tokens) (scanner : Scanner) : Prop :=
  scanToken
      { scanner with
        rest := scanner.lines.head?, lines := scanner.lines.tail, lineNr := scanner.lineNr + 1 } =
    (tokens.next, tokens.scanner)

theorem end_advance (tokens : Tokens) (scanner : Scanner) (here : tokens.At scanner []) :
    AtNext tokens.advance scanner := by
  have scanned : scanToken { scanner with rest := some [] } =
      ({ type := .eol, start := [], len := 1, lineNr := scanner.lineNr, data := 0 },
        { scanner with
          rest := scanner.lines.head?, lines := scanner.lines.tail
          lineNr := scanner.lineNr + 1 }) := rfl
  unfold Tokens.At at here
  rw [scanned, Prod.mk.injEq] at here
  unfold AtNext Tokens.advance
  rw [← here.2]

/-- The comment of a statement as it is printed; only a line without code starts with it. -/
def Remark (line : Line) (rest : Text) : Prop :=
  rest = [] ∨ ∃ comment, rest = if line = .empty then '#' :: comment else ' ' :: '#' :: comment

theorem remark_tail (line : Line) (rest : Text) (remark : Remark line rest) (proper : line ≠ .empty) :
    Tail rest := by
  rcases remark with none_ | ⟨comment, same⟩
  · exact Or.inl none_
  · rw [if_neg proper] at same
    exact Or.inr ⟨comment, same⟩

theorem remark_ends (line : Line) (rest : Text) (remark : Remark line rest) (tokens : Tokens)
    (scanner : Scanner) (here : tokens.At scanner rest) :
    (tokens.next.type = .eol ∨ tokens.next.type = .comment) ∧
      (pastComment tokens).At scanner [] := by
  unfold pastComment
  rcases remark with rfl | ⟨comment, same⟩
  · have eol := at_end tokens scanner here
    rw [if_neg (by simp [eol])]
    exact ⟨Or.inl eol, here⟩
  · have sharp : tokens.At scanner ('#' :: comment) := by
      rw [same] at here
      split at here
      · exact here
      · exact (at_blank _ _ _).mp here
    obtain ⟨type, behind⟩ := at_comment tokens scanner comment sharp
    rw [if_pos type]
    exact ⟨Or.inr type, behind⟩

theorem expression_reads (local_ : Statement) (line : Line) (pc : Nat)
    (legible : line.Legible lib localArch pc) (text rest : Text)
    (printed : Formatter.lineText line pc = some text) (remark : Remark line rest)
    (few : line ≠ .empty → local_.codeNr ≤ bpfMaxInsns) (tokens : Tokens) (scanner : Scanner)
    (here : tokens.At scanner (text ++ rest)) :
    tokens.next.type ∈ starters ∧ ∃ again after,
      expression lib localArch local_ tokens = .ok again after ∧ line.Restated pc again.line ∧
      again.labelDecl = local_.labelDecl ∧ again.textNr = local_.textNr ∧
      again.codeNr = local_.codeNr ∧ AtNext after scanner := by
  obtain ⟨starter, got, between, ran, restated, there⟩ : tokens.next.type ∈ starters ∧
      ∃ got between, Parser.line lib localArch local_.codeNr tokens = .ok got between ∧
        line.Restated pc got ∧ between.At scanner rest := by
    by_cases empty : line = .empty
    · subst empty
      cases printed
      obtain ⟨kind, _⟩ := remark_ends .empty rest remark tokens scanner here
      refine ⟨?_, .empty, tokens, ?_, .empty, here⟩
      · rcases kind with eol | comment
        · simp [eol, starters]
        · simp [comment, starters]
      · rw [line_run, if_pos kind]
    · exact line_reads lib localArch line pc legible text rest printed
        (remark_tail line rest remark empty) empty local_.codeNr (few empty) tokens scanner here
  obtain ⟨_, over_⟩ := remark_ends line rest remark between scanner there
  have eol := at_end _ scanner over_
  have ends : lineEnd (commentAt local_ between) (pastComment between) =
      .ok (pastComment between).next (pastComment between).advance := by
    rw [line_end_run, if_pos eol]
  refine ⟨starter, ended local_ got between (pastComment between).next, (pastComment between).advance,
    ?_, restated, rfl, rfl, rfl, end_advance _ scanner over_⟩
  rw [expression_eq, ran]
  dsimp only
  rw [ends]

def columnsText (columns : List Text) : Text := columns.flatMap fun column => ' ' :: column

theorem starter_no_number (type : TokenType) (starter : type ∈ starters) :
    type ≠ .number ∧ type ≠ .overflowNumber ∧ type ≠ .labelDecl := by
  have each : ∀ type ∈ starters, type ≠ .number ∧ type ≠ .overflowNumber ∧ type ≠ .labelDecl := by
    decide
  exact each type starter

theorem columns_reads (columns : List Text) (numbers : ∀ word ∈ columns, ∃ data, NumberWord word data)
    (body : Text) (scanner : Scanner)
    (starts : ∀ tokens : Tokens, tokens.At scanner body → tokens.next.type ∈ starters) (most : Nat)
    (enough : columns.length ≤ most) (tokens : Tokens)
    (here : tokens.At scanner (columnsText columns ++ ' ' :: body)) :
    ∃ after, skipColumns most tokens = .ok () after ∧ after.At scanner body := by
  induction columns generalizing most tokens with
  | nil =>
      have there := (at_blank _ _ _).mp here
      obtain ⟨number, overflow, _⟩ := starter_no_number _ (starts tokens there)
      refine ⟨tokens, ?_, there⟩
      cases most with
      | zero =>
          unfold skipColumns
          rw [match_number_bind, if_neg number, if_neg overflow]
          rfl
      | succ most =>
          unfold skipColumns
          rw [match_number_bind, if_neg number, if_neg overflow]
          rfl
  | cons word columns ih =>
      rw [List.forall_mem_cons] at numbers
      obtain ⟨⟨data, number⟩, others⟩ := numbers
      obtain ⟨fewer, rfl⟩ := Nat.exists_eq_succ_of_ne_zero (Nat.pos_iff_ne_zero.mp
        (Nat.lt_of_lt_of_le (Nat.succ_pos _) enough))
      have split : columnsText (word :: columns) ++ ' ' :: body =
          ' ' :: (word ++ (columnsText columns ++ ' ' :: body)) := by
        simp [columnsText]
      rw [split] at here
      have stops : Stops (columnsText columns ++ ' ' :: body) := by
        cases columns with
        | nil => exact stops_char ' ' _ (by decide)
        | cons other more => exact stops_char ' ' _ (by decide)
      have lexeme := number _ stops
      have there := (at_blank _ _ _).mp here
      obtain ⟨after, ran, behind⟩ := ih others fewer (Nat.le_of_succ_le_succ enough) _
        (at_advance lexeme tokens scanner there)
      refine ⟨after, ?_, behind⟩
      unfold skipColumns
      rw [match_number_bind, if_pos (at_type lexeme tokens scanner there), if_pos rfl]
      exact ran

end Parser

def lineAhead (key : Option Text) (columns : List Text) (body : Text) : Text :=
  match key with
  | none => body
  | some key => key ++ ':' :: (Parser.columnsText columns ++ ' ' :: body)

structure LineRead (state : ParseState) (scanner : Scanner) (key : Option Text) (line : Line)
    (pc : Nat) (statement : Statement) (next : ParseState) : Prop where
  restated : line.Restated pc statement.line
  labelDecl : statement.labelDecl = key
  textNr : statement.textNr = (state.textNr + 1) % 2 ^ 16
  codeNr : statement.codeNr = (state.codeNr + 1) % 2 ^ 16
  nextText : next.textNr = (state.textNr + 1) % 2 ^ 16
  nextCode : next.codeNr =
    if statement.line = .empty then ((state.codeNr + 1) % 2 ^ 16 + 2 ^ 16 - 1) % 2 ^ 16
    else (state.codeNr + 1) % 2 ^ 16
  table : next.table = state.table ++ (key.map fun key => (key, (state.codeNr + 1) % 2 ^ 16)).toList
  behind : Parser.AtNext next.tokens scanner

section Lines

variable (lib : Libseccomp) (localArch : Word)

theorem plain_line_reads (line : Line) (pc : Nat) (legible : line.Legible lib localArch pc)
    (text rest : Text) (printed : Formatter.lineText line pc = some text)
    (remark : Parser.Remark line rest) (state : ParseState)
    (few : line ≠ .empty → (state.codeNr + 1) % 2 ^ 16 ≤ bpfMaxInsns) (scanner : Scanner)
    (here : state.tokens.At scanner (text ++ rest)) :
    ∃ statement next, parseLine lib localArch state = .ok (statement, next) ∧
      LineRead state scanner none line pc statement next := by
  obtain ⟨textNr, codeNr, tokens, table⟩ := state
  obtain ⟨starter, again, after, ran, restated, label, nr, code, behind⟩ :=
    Parser.expression_reads lib localArch
      { Statement.zero with
        textNr := (textNr + 1) % 2 ^ 16, codeNr := (codeNr + 1) % 2 ^ 16
        lineStart := tokens.next.start }
      line pc legible text rest printed remark few tokens scanner here
  have plain := (Parser.starter_no_number _ starter).2.2
  rw [parse_line_plain lib localArch textNr codeNr tokens table plain, run_line_ok _ _ _ _ _ ran]
  exact ⟨again, _, rfl,
    { restated, labelDecl := label, textNr := nr, codeNr := code
      nextText := rfl, nextCode := rfl, table := (List.append_nil _).symm, behind }⟩

theorem insert_key_new (table : LabelTable) (key : Text) (lineNr : Nat)
    (fresh : ∀ entry ∈ table, entry.1 ≠ key) :
    insertKey table key lineNr = (false, table ++ [(key, lineNr)]) := by
  have missing : table.find? (fun entry => entry.1 = key) = none := by
    rw [List.find?_eq_none]
    intro entry member same
    exact fresh entry member (of_decide_eq_true same)
  unfold insertKey
  rw [missing]
  rfl

theorem labelled_line_reads (key : Text) (plainKey : PlainName key) (columns : List Text)
    (numbers : ∀ word ∈ columns, ∃ data, NumberWord word data) (fits : columns.length ≤ 4)
    (line : Line) (pc : Nat) (legible : line.Legible lib localArch pc)
    (text rest : Text) (printed : Formatter.lineText line pc = some text)
    (remark : Parser.Remark line rest) (state : ParseState)
    (fresh : ∀ entry ∈ state.table, entry.1 ≠ key)
    (few : line ≠ .empty → (state.codeNr + 1) % 2 ^ 16 ≤ bpfMaxInsns) (scanner : Scanner)
    (here : state.tokens.At scanner (lineAhead (some key) columns (text ++ rest))) :
    ∃ statement next, parseLine lib localArch state = .ok (statement, next) ∧
      LineRead state scanner (some key) line pc statement next := by
  obtain ⟨textNr, codeNr, tokens, table⟩ := state
  have at_key : tokens.At scanner
      (key ++ [':'] ++ (Parser.columnsText columns ++ ' ' :: (text ++ rest))) := by
    rw [List.append_assoc]
    exact here
  obtain ⟨next, behindKey⟩ := at_lexeme (declaration_lexeme key _ plainKey) tokens scanner at_key
  have declares : tokens.next.type = .labelDecl := by rw [next]
  have spelled : labelKey tokens = key := by
    unfold labelKey
    rw [next]
    simp
  have inserted := insert_key_new table key ((codeNr + 1) % 2 ^ 16) fresh
  have starts (other : Tokens) (there : other.At scanner (text ++ rest)) :
      other.next.type ∈ starters :=
    (Parser.expression_reads lib localArch (labelled textNr codeNr tokens) line pc legible text rest
      printed remark few other scanner there).1
  obtain ⟨s1, skipped, there⟩ := Parser.columns_reads columns numbers (text ++ rest) scanner starts 4
    fits tokens.advance behindKey
  obtain ⟨_, again, after, ran, restated, label, nr, code, behind⟩ :=
    Parser.expression_reads lib localArch (labelled textNr codeNr tokens) line pc legible text rest
      printed remark few s1 scanner there
  have whole : (do
      Parser.skipColumns 4
      Parser.expression lib localArch (labelled textNr codeNr tokens) : Parse Statement)
      tokens.advance = .ok again after := by
    rw [Parser.bind_run, skipped]
    exact ran
  rw [parse_line_labelled lib localArch textNr codeNr tokens table _ false declares
    (by rw [spelled]; exact inserted)]
  rw [if_neg Bool.false_ne_true, run_line_ok _ _ _ _ _ whole]
  refine ⟨again, _, rfl, ?_⟩
  exact
    { restated, labelDecl := label.trans (congrArg some spelled), textNr := nr, codeNr := code
      nextText := rfl, nextCode := rfl, table := rfl, behind }

end Lines

end Ceccomp
