import Ceccomp.Emu.Ready
import Ceccomp.Text.Recovery
import Ceccomp.Text.Listing
import Ceccomp.Text.Worded

/-!
What the emulator echoes of a source. `emulate_printer` writes each statement from the
characters the parser kept of it; read again, the line is the same statement.
-/

namespace Ceccomp

def Emu.printLabelDecl (statement : Statement) : Text :=
  match statement.labelDecl with
  | none => []
  | some key => key ++ [':', ' ']

/-- `emulate_printer`, neither quiet nor in colours. -/
def Emu.emulatePrinter (statement : Statement) : Option Text :=
  (printStatement statement).map fun text => Emu.printLabelDecl statement ++ text

/-- The line again, but perhaps without a branch to the next statement. -/
inductive Line.Echoed : Line → Line → Prop where
  | assign (line again : AssignLine) (left : line.leftVar.Same again.leftVar)
      (operator : again.operator = line.operator) (right : line.rightVar.Same again.rightVar) :
      Line.Echoed (.assign line) (.assign again)
  | jump (line again : JumpLine) (condition : again.ifCondition = line.ifCondition)
      (ifBang : again.ifBang = line.ifBang)
      (compared : line.ifCondition = true →
        again.comparator = line.comparator ∧ line.cmpobj.Same again.cmpobj)
      (jt : again.jt.key = line.jt.key)
      (jf : again.jf.key = line.jf.key ∨ (line.jf.codeNr = 0 ∧ again.jf.key = none)) :
      Line.Echoed (.jump line) (.jump again)
  | return_ (line again : ReturnLine) (same : line.retObj.Same again.retObj) :
      Line.Echoed (.return_ line) (.return_ again)
  | empty : Line.Echoed .empty .empty

/-- The parser takes the line alone and makes the statement of it again. -/
def Statement.EchoReads (lib : Libseccomp) (localArch : Word) (statement : Statement)
    (shown : Text) : Prop :=
  ∃ again table, parser lib localArch [shown] = some (.ok { text := [again], table }) ∧
    again.labelDecl = statement.labelDecl ∧ statement.line.Echoed again.line

section Printed

theorem right_printed (obj : Obj) (type : obj.type ∈ rightTypes) :
    ∃ text, Formatter.objPrinter obj = some text := by
  have each : ∀ type ∈ rightTypes, (Formatter.objPrint type).isSome = true := by decide
  obtain ⟨handler, prints⟩ := Option.isSome_iff_exists.mp (each _ type)
  exact ⟨handler obj, by rw [Formatter.objPrinter, prints, Option.map_some]⟩

theorem return_printed (obj : Obj) (type : obj.type ∈ Parser.returnTypes) :
    ∃ text, Formatter.objPrinter obj = some text := by
  have each : ∀ type ∈ Parser.returnTypes, (Formatter.objPrint type).isSome = true := by decide
  obtain ⟨handler, prints⟩ := Option.isSome_iff_exists.mp (each _ type)
  exact ⟨handler obj, by rw [Formatter.objPrinter, prints, Option.map_some]⟩

variable (lib : Libseccomp) (localArch : Word)

theorem operand_printed (lineStart : Text) (obj : Obj)
    (worded : Parser.OperandWorded lib localArch lineStart obj) :
    ∃ text, Formatter.objPrinter obj = some text := by
  cases worded with
  | whole _ text printed => exact ⟨text, printed⟩
  | cut arch _ before behind name _ _ _ _ _ same =>
      rw [same]
      exact ⟨_, rfl⟩

theorem worded_printed (lineStart : Text) (line : Line) (pc : Nat)
    (worded : line.Worded lib localArch lineStart) :
    ∃ text, Formatter.lineText line pc = some text := by
  cases line with
  | assign line =>
      obtain ⟨⟨shaped, _, _⟩, _⟩ := worded
      have left : line.leftVar.type ∈ rightTypes := by
        have each : ∀ type ∈ [TokenType.A, .X, .mem], type ∈ rightTypes := by decide
        exact each _ shaped.left
      obtain ⟨first, shownLeft⟩ := right_printed _ left
      obtain ⟨second, shownRight⟩ := right_printed _ shaped.right
      show ∃ text, Formatter.assignLine line = some text
      unfold Formatter.assignLine
      rw [shownLeft, shownRight]
      exact ⟨_, rfl⟩
  | jump line =>
      show ∃ text, Formatter.jumpLine line pc = some text
      unfold Formatter.jumpLine
      by_cases conditional : line.ifCondition = true
      · obtain ⟨text, shown⟩ := operand_printed lib localArch lineStart line.cmpobj
          (worded.2.1 conditional)
        have register : Formatter.objPrinter (.of .A) = some TokenType.A.spelling := rfl
        rw [if_neg (by simp [conditional]), register, shown]
        dsimp only
        split
        · exact ⟨_, rfl⟩
        · exact ⟨_, rfl⟩
      · rw [if_pos (by simpa using conditional)]
        exact ⟨_, rfl⟩
  | return_ line =>
      obtain ⟨text, shown⟩ := return_printed _ worded.1.1
      exact ⟨TokenType.return_.spelling ++ ' ' :: text, by
        show Formatter.returnLine line = _
        rw [Formatter.returnLine, shown, Option.map_some]⟩
  | empty => exact ⟨[], rfl⟩
  | eof | error _ => exact absurd worded id

theorem label_printed (label : Label) (key : Text) (named : label.key = some key) (pc : Nat) :
    Formatter.printLabel label pc = key := by
  unfold Formatter.printLabel
  rw [named]

theorem worded_legible (lineStart : Text) (line : Line) (pc : Nat)
    (worded : line.Worded lib localArch lineStart) (kept : DotsKept lib lineStart) :
    line.Legible lib localArch pc := by
  cases line with
  | assign line | return_ line => exact worded.1
  | jump line =>
      obtain ⟨own, operand, _⟩ := worded
      obtain ⟨key, named, plain⟩ := own.jt
      constructor
      · rw [label_printed line.jt key named]
        exact plain
      · intro far
        cases elseKey : line.jf.key with
        | none => exact absurd (own.noElse elseKey) far
        | some other =>
            rw [label_printed line.jf other elseKey]
            exact own.jf other elseKey
      · exact own.comparator
      · intro conditional
        cases operand conditional with
        | whole _ text printed reads => exact ⟨text, printed, reads⟩
        | cut arch known before behind name blankBefore blankBehind plainName valid cut same =>
            rw [same]
            exact ⟨_, rfl, kept_reads lib localArch known blankBefore blankBehind _ rfl valid
              (cut.mp kept) _⟩
  | empty => trivial
  | eof | error _ => exact absurd worded id

theorem restated_echoed (lineStart : Text) (line again : Line) (pc : Nat)
    (worded : line.Worded lib localArch lineStart) (restated : line.Restated pc again) :
    line.Echoed again := by
  cases restated with
  | assign line again left operator right => exact .assign line again left operator right
  | ja line again always plain ifBang jt jf =>
      obtain ⟨key, named, _⟩ := worded.1.jt
      refine .jump line again (plain.trans always.symm) ?_ ?_ ?_ ?_
      · rw [ifBang, worded.1.always always]
      · intro conditional
        rw [always] at conditional
        cases conditional
      · rw [jt, label_printed line.jt key named, named]
      · exact Or.inl (jf.trans (worded.1.alone always).symm)
  | jump line again conditional also ifBang comparator operand jt jf =>
      obtain ⟨key, named, _⟩ := worded.1.jt
      refine .jump line again (also.trans conditional.symm) ifBang (fun _ => ⟨comparator, operand⟩) ?_ ?_
      · rw [jt, label_printed line.jt key named, named]
      · by_cases next : line.jf.codeNr = 0
        · rw [if_pos next] at jf
          exact Or.inr ⟨next, jf⟩
        · rw [if_neg next] at jf
          left
          cases elseKey : line.jf.key with
          | none => exact absurd (worded.1.noElse elseKey) next
          | some other => rw [jf, label_printed line.jf other elseKey]
  | return_ line again same => exact .return_ line again same
  | empty => exact .empty

end Printed

section Reading

variable (lib : Libseccomp) (localArch : Word)

theorem echo_printed (statement : Statement) (worded : statement.Worded lib localArch) :
    ∃ text, Formatter.lineText statement.line statement.codeNr = some text ∧
      Emu.emulatePrinter statement =
        some (lineAhead statement.labelDecl [] (text ++ Formatter.printComment statement) ++ ['\n']) := by
  obtain ⟨text, printed⟩ := worded_printed lib localArch _ _ statement.codeNr worded.line
  refine ⟨text, printed, ?_⟩
  unfold Emu.emulatePrinter Emu.printLabelDecl lineAhead
  rw [print_statement_text, printed]
  cases statement.labelDecl with
  | none => rfl
  | some key => simp [Parser.columnsText]

theorem single_at (shown : Text) : (initParse [shown]).tokens.At (initScanner [shown]) shown := rfl

theorem single_line_parses (shown : Text) (key : Option Text) (line : Line) (pc : Nat)
    (again : Statement) (next : ParseState)
    (parsed : parseLine lib localArch (initParse [shown]) = .ok (again, next))
    (read : LineRead (initParse [shown]) (initScanner [shown]) key line pc again next) :
    parser lib localArch [shown] = some (.ok { text := [again], table := next.table }) := by
  have proper := restated_eof pc line again.line read.restated
  obtain ⟨last, state, ended, eof, table⟩ :=
    eof_read lib localArch next (ahead_eof _ _ read.behind rfl)
  have loop : parseLines lib localArch 3 (initParse [shown]) = some (.ok ([again], state)) := by
    simp [parseLines, parsed, proper, ended, eof, Except.map]
  show (parseLines lib localArch 3 (initParse [shown])).map _ = _
  rw [loop]
  simp [Except.map, table]

theorem echo_reads (statement : Statement) (worded : statement.Worded lib localArch)
    (kept : DotsKept lib statement.lineStart) (text : Text)
    (printed : Formatter.lineText statement.line statement.codeNr = some text) :
    statement.EchoReads lib localArch
      (lineAhead statement.labelDecl [] (text ++ Formatter.printComment statement)) := by
  have legible := worded_legible lib localArch _ _ statement.codeNr worded.line kept
  have few : statement.line ≠ .empty → (0 + 1) % 2 ^ 16 ≤ bpfMaxInsns := fun _ => by decide
  obtain ⟨shown, hidden⟩ : ∃ shown,
      lineAhead statement.labelDecl [] (text ++ Formatter.printComment statement) = shown := ⟨_, rfl⟩
  rw [hidden]
  have here : (initParse [shown]).tokens.At (initScanner [shown])
      (lineAhead statement.labelDecl [] (text ++ Formatter.printComment statement)) := by
    rw [hidden]
    exact single_at shown
  obtain ⟨again, next, parsed, read⟩ : ∃ again next,
      parseLine lib localArch (initParse [shown]) = .ok (again, next) ∧
        LineRead (initParse [shown]) (initScanner [shown]) statement.labelDecl statement.line
          statement.codeNr again next := by
    cases label : statement.labelDecl with
    | none =>
        rw [label] at here
        exact plain_line_reads lib localArch _ _ legible text _ printed worded.remark _ few _ here
    | some key =>
        rw [label] at here
        exact labelled_line_reads lib localArch key (worded.label key label) [] (by simp) (by decide)
          _ _ legible text _ printed worded.remark _ (by simp [initParse]) few _ here
  exact ⟨again, next.table, single_line_parses lib localArch shown _ _ _ again next parsed read,
    read.labelDecl, restated_echoed lib localArch _ _ _ _ worded.line read.restated⟩

theorem jump_condition (tokens after : Tokens) (value : JumpLine)
    (ran : Parser.jumpLine lib localArch tokens = .ok (.jump value) after) :
    ∃ line between, Parser.condition lib localArch tokens = .ok line between ∧
      value.cmpobj = line.cmpobj := by
  unfold Parser.jumpLine at ran
  obtain ⟨line, between, gotCondition, ran⟩ := (Parser.bind_ok ..).mp ran
  refine ⟨line, between, gotCondition, ?_⟩
  simp only [Parser.match_bind, Parser.ite_run, Parser.error_next_bind, if_true, Bool.false_eq_true,
    if_false, Bool.not_true, Bool.not_false] at ran
  split at ran
  · obtain ⟨jt, s2, _, ran⟩ := (Parser.bind_ok ..).mp ran
    simp only [Parser.match_bind, Parser.ite_run, Parser.error_next_bind, if_true,
      Bool.false_eq_true, if_false, Bool.not_true, Bool.not_false, Parser.pure_run] at ran
    split at ran
    · split at ran
      · split at ran
        · obtain ⟨jf, s3, _, ran⟩ := (Parser.bind_ok ..).mp ran
          cases ran
          rfl
        · cases ran
      · cases ran
    · cases ran
      rfl
  · cases ran

theorem comparison_ahead (line : JumpLine) (pc : Nat) (text rest operand : Text)
    (conditional : line.ifCondition = true)
    (shown : Formatter.objPrinter line.cmpobj = some operand)
    (printed : Formatter.jumpLine line pc = some text) (tokens : Tokens) (scanner : Scanner)
    (here : tokens.At scanner (text ++ rest)) :
    tokens.next.type = .if_ ∧ ∃ behind, tokens.advance.At scanner
      (Parser.conditionText line.ifBang line.comparator operand ++ behind) := by
  obtain ⟨own, shownOwn, rfl⟩ := Parser.jump_text line pc text conditional printed
  obtain rfl : own = operand := Option.some.inj (shownOwn.symm.trans shown)
  simp only [List.append_assoc] at here
  have word := Parser.keyword_lexeme .if_ (Parser.conditionText line.ifBang line.comparator own ++
    (' ' :: (TokenType.goto.spelling ++ ' ' :: Formatter.printLabel line.jt pc) ++
      (Parser.elseText (if line.jf.codeNr = 0 then none else some (Formatter.printLabel line.jf pc)) ++
        rest))) (by decide)
  exact ⟨Parser.at_type word tokens scanner (by simpa using here), _,
    (at_blank _ _ _).mp (Parser.at_advance word tokens scanner (by simpa using here))⟩

theorem comparison_operand (ifBang : Bool) (comparator : TokenType) (known : comparator ∈ comparators)
    (operand behind : Text) (codeNr : Nat) (tokens between : Tokens) (scanner : Scanner)
    (first : tokens.next.type = .if_)
    (here : tokens.advance.At scanner (Parser.conditionText ifBang comparator operand ++ behind))
    (again : JumpLine) (ran : Parser.line lib localArch codeNr tokens = .ok (.jump again) between) :
    ∃ t : Tokens, t.At scanner (operand ++ ')' :: behind) ∧
      ReadAs lib localArch t again.cmpobj.data := by
  obtain ⟨t, there, _, starts⟩ := Parser.condition_starts lib localArch ifBang comparator known operand
    behind _ scanner here
  rw [Parser.line_run, first] at ran
  simp only [reduceCtorEq, or_self, if_false, if_true] at ran
  split at ran
  · cases ran
  · obtain ⟨got, last, gotCondition, same⟩ := jump_condition lib localArch _ _ again ran
    obtain ⟨value, after, compared, own⟩ := starts got last gotCondition
    exact ⟨t, there, value.1, value.2, after, compared, by rw [same, own]⟩

theorem echo_body (statement : Statement) (worded : statement.Worded lib localArch) (text : Text)
    (starts : ∀ (tokens : Tokens) (scanner : Scanner), tokens.At scanner text →
      tokens.next.type ∈ starters)
    (again : Statement) (table : LabelTable)
    (parses : parser lib localArch [lineAhead statement.labelDecl [] text] =
      some (.ok { text := [again], table }))
    (noError : ∀ error, again.line ≠ .error error) :
    ∃ local_ tokens after scanner, tokens.At scanner text ∧
      Parser.expression lib localArch local_ tokens = .ok again after := by
  obtain ⟨last, run, _⟩ := parser_run lib localArch _ _ parses
  obtain ⟨next, parsed⟩ : ∃ next, parseLine lib localArch
      (initParse [lineAhead statement.labelDecl [] text]) = .ok (again, next) := by
    cases run with
    | line _ _ next _ _ parsed => exact ⟨next, parsed⟩
  obtain ⟨local_, tokens, after, _, ran, place⟩ :=
    parse_line_body lib localArch _ next again parsed noError
  have here := single_at (lineAhead statement.labelDecl [] text)
  cases label : statement.labelDecl with
  | none =>
      rw [label] at here place
      have there : Tokens.At _ _ text := here
      rcases place with ⟨declares, _⟩ | ⟨_, _, rfl⟩
      · exact absurd declares (Parser.starter_no_number _ (starts _ _ there)).2.2
      · exact ⟨local_, _, after, _, there, ran⟩
  | some key =>
      rw [label] at here place
      have split : lineAhead (some key) [] text = key ++ [':'] ++ (Parser.columnsText [] ++ ' ' :: text) := by
        simp [lineAhead]
      rw [split] at here
      obtain ⟨first, behind⟩ :=
        at_lexeme (declaration_lexeme key _ (worded.label key label)) _ _ here
      rw [← split] at first behind
      rcases place with ⟨_, _, skipped⟩ | ⟨plain, _⟩
      · obtain ⟨other, ranSkip, there⟩ := Parser.columns_reads [] (by simp) text _
          (fun tokens at_ => starts tokens _ at_) 4 (by decide) _ behind
        rw [ranSkip] at skipped
        cases skipped
        exact ⟨local_, _, after, _, there, ran⟩
      · exact absurd (by rw [first]) plain

theorem echo_operand (statement : Statement) (worded : statement.Worded lib localArch)
    (line : JumpLine) (shape : statement.line = .jump line) (conditional : line.ifCondition = true)
    (text operand : Text)
    (printed : Formatter.lineText statement.line statement.codeNr = some text)
    (shown : Formatter.objPrinter line.cmpobj = some operand)
    (reads : statement.EchoReads lib localArch
      (lineAhead statement.labelDecl [] (text ++ Formatter.printComment statement))) :
    ∃ (t : Tokens) (scanner : Scanner) (behind : Text), t.At scanner (operand ++ ')' :: behind) ∧
      ReadAs lib localArch t line.cmpobj.data := by
  obtain ⟨again, table, parses, _, echoed⟩ := reads
  rw [shape] at printed echoed
  obtain ⟨line', jump, same⟩ : ∃ line', again.line = .jump line' ∧ line.cmpobj.Same line'.cmpobj := by
    cases read : again.line with
    | jump line' =>
        rw [read] at echoed
        cases echoed with
        | jump _ _ _ _ compared => exact ⟨line', rfl, (compared conditional).2⟩
    | assign _ | return_ _ | empty | eof | error _ =>
        rw [read] at echoed
        cases echoed
  have ahead (tokens : Tokens) (scanner : Scanner)
      (here : tokens.At scanner (text ++ Formatter.printComment statement)) :=
    comparison_ahead line statement.codeNr text _ operand conditional shown printed tokens scanner here
  obtain ⟨local_, tokens, after, scanner, here, ran⟩ := echo_body lib localArch statement worded _
    (fun tokens scanner here => by
      rw [(ahead tokens scanner here).1]
      decide) again table parses (by simp [jump])
  obtain ⟨first, behind, there⟩ := ahead tokens scanner here
  have known : line.comparator ∈ comparators := by
    have own := worded.line
    rw [shape] at own
    exact own.1.comparator conditional
  rcases Parser.expression_run lib localArch local_ tokens with
    ⟨_, _, _, failed⟩ | ⟨got, between, done, ⟨_, _, _, failed⟩ | ⟨_, _, _, done'⟩⟩
  · rw [failed] at ran
    cases ran
  · rw [failed] at ran
    cases ran
  · rw [done'] at ran
    cases ran
    have read : got = .jump line' := jump
    subst read
    obtain ⟨t, operandThere, value⟩ := comparison_operand lib localArch line.ifBang line.comparator
      known operand behind _ tokens between scanner first there line' done
    exact ⟨t, scanner, behind, operandThere, same.2 ▸ value⟩

theorem echo_kept (statement : Statement) (worded : statement.Worded lib localArch) (text : Text)
    (printed : Formatter.lineText statement.line statement.codeNr = some text)
    (reads : statement.EchoReads lib localArch
      (lineAhead statement.labelDecl [] (text ++ Formatter.printComment statement))) :
    DotsKept lib statement.lineStart := by
  have line := worded.line
  cases shape : statement.line with
  | assign _ | return_ _ =>
      rw [shape] at line
      exact dots_kept_none lib _ line.2
  | empty =>
      rw [shape] at line
      exact dots_kept_none lib _ line
  | eof | error _ =>
      rw [shape] at line
      exact absurd line id
  | jump jump =>
      rw [shape] at line
      obtain ⟨_, operand, plain⟩ := line
      by_cases conditional : jump.ifCondition = true
      · cases operand conditional with
        | whole free => exact dots_kept_none lib _ free
        | cut arch known before behind name blankBefore blankBehind plainName valid cut same =>
            have shown : Formatter.objPrinter jump.cmpobj =
                some (arch.spelling ++ dotCut before behind name) := by
              rw [same]
              rfl
            obtain ⟨t, scanner, later, here, value⟩ := echo_operand lib localArch statement worded jump
              shape conditional text _ printed shown reads
            rw [same] at value
            exact cut.mpr (reads_kept lib localArch known blankBefore blankBehind plainName _ rfl later
              t scanner here value)
      · exact dots_kept_none lib _ (plain (by simpa using conditional))

end Reading

def blankDot : Text :=
  "$A = $syscall_nr\nif ($A != x86_64 . read) goto bad\nreturn ALLOW\nbad: return KILL\n".toList

theorem blank_dot_read : (readProgram readOnly archX8664 blankDot).isSome = true := by
  decide +kernel

def blankDotProgram : TextProgram readOnly archX8664 :=
  (readProgram readOnly archX8664 blankDot).get blank_dot_read

/-- The two blanks cost the name its last two characters. -/
theorem blank_dot_cut :
    ¬ ∀ (lib : Libseccomp) (localArch : Word) (program : TextProgram lib localArch),
      ∀ statement ∈ program.text, ∃ shown,
        Emu.emulatePrinter statement = some (shown ++ ['\n']) ∧
          statement.EchoReads lib localArch shown := by
  intro claim
  have second : (blankDotProgram.text[1]?.bind Emu.emulatePrinter) =
      some ("if ($A != x86_64 . re) goto bad".toList ++ ['\n']) := by decide +kernel
  obtain ⟨statement, found, echo⟩ := Option.bind_eq_some_iff.mp second
  obtain ⟨shown, prints, again, table, parses, _, echoed⟩ :=
    claim _ _ blankDotProgram statement (List.mem_of_getElem? found)
  obtain rfl := List.append_cancel_right (Option.some.inj (prints.symm.trans echo))
  have refused : (parser readOnly archX8664 ["if ($A != x86_64 . re) goto bad".toList]).map
      (Except.map fun parsed => parsed.text.map Statement.line) =
        some (.ok [.error { errorStart := "re) goto bad".toList, errorMsg := .expectSyscall }]) := by
    decide +kernel
  rw [parses] at refused
  have line : again.line = .error { errorStart := "re) goto bad".toList, errorMsg := .expectSyscall } := by
    simpa [Except.map] using refused
  rw [line] at echoed
  generalize statement.line = before at echoed
  cases echoed

section Programs

variable {lib : Libseccomp} {localArch : Word} (program : TextProgram lib localArch)

theorem known_calm (lines : List Text) (known : ¬ Garbage lines) : (initScanner lines).Calm := by
  apply few_unknown_calm
  intro n
  have none_ : (List.range n).filter (fun i => ((initScanner lines).token i).type = .unknown) = [] := by
    rw [List.filter_eq_nil_iff]
    intro i _ unknown
    refine known ⟨i, Or.inl ?_⟩
    rw [of_decide_eq_true unknown]
    decide
  simp [Scanner.unknowns, none_]

theorem program_line_start (i : Nat) (statement : Statement)
    (found : program.text[i]? = some statement) :
    ∃ line, program.lines[i]? = some line ∧ statement.lineStart = line.dropWhile isSpace := by
  obtain ⟨insns, assembles⟩ := program_assembles program
  obtain ⟨before, here, _, _, _, start⟩ := program_origin program insns assembles i statement found
  have parsed := program.parses
  rcases parser_local lib localArch program.lines with ⟨exits, _⟩ | ⟨made, parses, each⟩
  · rw [exits] at parsed
    cases parsed
  · rw [parses] at parsed
    cases parsed
    obtain ⟨length, local_⟩ := each (known_calm _ (program_known program))
    have inside : i < program.lines.length := length ▸ (List.getElem?_eq_some_iff.mp here).1
    have line := List.getElem?_eq_getElem inside
    obtain ⟨alone, ⟨table, parsedAlone⟩, same⟩ := local_ i _ before line here
    obtain ⟨_, run, _⟩ := parser_run lib localArch _ _ parsedAlone
    have own : alone.lineStart = program.lines[i].dropWhile isSpace := by
      cases run with
      | line _ _ next _ _ first =>
          rw [parse_line_start lib localArch _ _ _ first]
          exact scan_start (initScanner [program.lines[i]])
    refine ⟨_, line, ?_⟩
    rw [start, ← own]
    rcases same with same | ⟨_, twice, _⟩
    · rw [same]
      rfl
    · exact twice.start

/-- The echo of a statement is the statement again exactly if its line has no dot in front of
its comment, or what is kept of the operand around the dot still stands for its number. -/
theorem echo_reads_iff (i : Nat) (statement : Statement)
    (found : program.text[i]? = some statement) :
    ∃ line shown, program.lines[i]? = some line ∧
      Emu.emulatePrinter statement = some (shown ++ ['\n']) ∧
      (statement.EchoReads lib localArch shown ↔ DotsKept lib (line.dropWhile isSpace)) := by
  have worded := program_worded program statement (List.mem_of_getElem? found)
  obtain ⟨text, printed, echo⟩ := echo_printed lib localArch statement worded
  obtain ⟨line, here, start⟩ := program_line_start program i statement found
  refine ⟨line, _, here, echo, ?_⟩
  rw [← start]
  constructor
  · exact echo_kept lib localArch statement worded text printed
  · intro kept
    exact echo_reads lib localArch statement worded kept text printed

end Programs

theorem read_named : PlainName "read".toList where
  letter := by decide
  inside := List.all_eq_true.mp (by decide)
  free := by decide

def dotted : Text :=
  "$A = $syscall_nr\nif ($A != x86_64.read) goto bad\nreturn ALLOW\nbad: return KILL\n".toList

theorem dotted_read : (readProgram readOnly archX8664 dotted).isSome = true := by
  decide +kernel

def dottedProgram : TextProgram readOnly archX8664 :=
  (readProgram readOnly archX8664 dotted).get dotted_read

theorem echo_reads_iff_dotted :
    ∃ statement, dottedProgram.text[1]? = some statement ∧
      Emu.emulatePrinter statement = some "if ($A != x86_64.read) goto bad\n".toList ∧
      statement.EchoReads readOnly archX8664 "if ($A != x86_64.read) goto bad".toList := by
  have second : (dottedProgram.text[1]?.bind Emu.emulatePrinter) =
      some ("if ($A != x86_64.read) goto bad".toList ++ ['\n']) := by decide +kernel
  obtain ⟨statement, found, echo⟩ := Option.bind_eq_some_iff.mp second
  obtain ⟨line, shown, here, prints, iff⟩ := echo_reads_iff dottedProgram 1 statement found
  obtain rfl := List.append_cancel_right (Option.some.inj (prints.symm.trans echo))
  have same : dottedProgram.lines[1]? = some "if ($A != x86_64.read) goto bad".toList := by
    decide +kernel
  rw [same] at here
  cases here
  have words : dotSpelling (codePart ("if ($A != x86_64.read) goto bad".toList.dropWhile isSpace)) =
      { arch := "x86_64".toList, before := 0, after := 0, name := "read".toList } := by decide +kernel
  refine ⟨statement, found, prints, iff.mpr fun _ => ?_⟩
  rw [words]
  exact ⟨.archX86_64, by decide, by decide, dot_kept_close _ _ _ read_named⟩

end Ceccomp
