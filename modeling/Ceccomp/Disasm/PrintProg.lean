import Ceccomp.Disasm.Bounds
import Ceccomp.Text.Lines
import Ceccomp.Text.Reparsed

/-!
`print_prog` of `disasm.c` with colours off: a program as text, each statement behind
its label and the fields of its filter.
-/

namespace Ceccomp

def paddedHex (width value : Nat) : Text := '0' :: 'x' :: (hexText value).leftpad width '0'

def Filter.columns (f : Filter) : List Text :=
  [paddedHex 2 f.code.toNat, paddedHex 2 f.jt.toNat, paddedHex 2 f.jf.toNat,
    paddedHex 8 f.k.toNat]

def printAsComment (text : Text) : Text :=
  Formatter.printComment
    { Statement.zero with
      lineStart := '#' :: text, comment := some 0, lineLen := (text.length + 1) % 2 ^ 16 } ++ ['\n']

def separator : Text := List.replicate 33 '-'

def columnNames : Text := "Label  CODE  JT   JF      K".toList

def pidSeparator (pid : Nat) : Text :=
  if pid = 0 then separator
  else
    let digits := decText pid
    ['P', 'I', 'D', '='] ++ digits.take 7 ++ ' ' :: separator.take (33 - 5 - digits.length)

def printFilter (i : Nat) (f : Filter) (statement : Statement) : Option Text :=
  (printStatement statement).map fun text =>
    ' ' :: defaultLabel i ++ ':' :: (f.columns.flatMap fun column => ' ' :: column) ++ ' ' :: text

def printFrom : Nat → List Filter → List Statement → Option Text
  | i, f :: filters, statement :: statements =>
      match printFilter i f statement, printFrom (i + 1) filters statements with
      | some first, some later => some (first ++ later)
      | _, _ => none
  | _, _, [] => some []
  | _, [], _ :: _ => none

/-- `print_prog`: the text, `none` where an assertion fails, or the message `check_prog`
ends the program with. What `check_prog` reported is not rendered. -/
def printProg (lib : Libseccomp) (scmpArch : Word) (prog : List Filter) (pid : Nat)
    (trustful : Bool) : Except Message (Option Text) :=
  if prog = [] then .ok none
  else
    (decodeFilters prog trustful).map fun (decoded, error) =>
      decoded.bind fun statements =>
        let statements := statements.tail
        let shown :=
          if error then some statements
          else render lib scmpArch (pileSize prog.length) statements
        shown.bind fun shown =>
          (printFrom 1 prog shown).map fun body =>
            printAsComment columnNames ++ printAsComment (pidSeparator pid) ++ body ++
              printAsComment separator

theorem print_as_comment_text (text : Text) (short : text.length + 1 < 2 ^ 16) :
    printAsComment text = '#' :: text ++ ['\n'] := by
  have whole : (text.length + 1) % 2 ^ 16 = text.length + 1 := Nat.mod_eq_of_lt short
  have taken : (text.length + 1 + 2 ^ 16 - 0 % 2 ^ 16) % 2 ^ 16 = text.length + 1 := by omega
  unfold printAsComment Formatter.printComment
  simp only [Statement.zero, whole, taken, Nat.succ_ne_zero, if_false, if_true, List.drop_zero]
  rw [List.take_of_length_le (by simp)]

def plainChar (c : Char) : Bool := c != '\n' && c != '\r' && c != nulChar && c != escChar

structure Tame (bound : Nat) (text : Text) : Prop where
  short : text.length ≤ bound
  plain : ∀ c ∈ text, plainChar c = true

theorem tame_word (bound : Nat) (text : Text) (short : text.length ≤ bound)
    (plain : text.all plainChar = true) : Tame bound text :=
  ⟨short, List.all_eq_true.mp plain⟩

theorem tame_nil (bound : Nat) : Tame bound [] := ⟨Nat.zero_le _, by simp⟩

theorem tame_cons (bound : Nat) (c : Char) (text : Text) (plain : plainChar c = true)
    (tame : Tame bound text) : Tame (bound + 1) (c :: text) := by
  constructor
  · exact Nat.succ_le_succ tame.short
  · exact List.forall_mem_cons.mpr ⟨plain, tame.plain⟩

theorem tame_append (first second : Nat) (front back : Text) (front_ : Tame first front)
    (back_ : Tame second back) : Tame (first + second) (front ++ back) := by
  constructor
  · rw [List.length_append]
    exact Nat.add_le_add front_.short back_.short
  · intro c member
    rcases List.mem_append.mp member with before | behind
    · exact front_.plain c before
    · exact back_.plain c behind

theorem tame_mono (bound more : Nat) (text : Text) (tame : Tame bound text) (less : bound ≤ more) :
    Tame more text :=
  ⟨Nat.le_trans tame.short less, tame.plain⟩

theorem identifier_plain_char (c : Char) (inside : isIdentifier c = true) : plainChar c = true := by
  have others : ∀ other ∈ ['\n', '\r', nulChar, escChar], isIdentifier other = false := by
    simp [isIdentifier, nulChar, escChar]
  have apart (other : Char) (member : other ∈ ['\n', '\r', nulChar, escChar]) : c ≠ other := by
    rintro rfl
    rw [others c member] at inside
    cases inside
  simp only [plainChar, Bool.and_eq_true, bne_iff_ne]
  exact ⟨⟨⟨apart _ (by decide), apart _ (by decide)⟩, apart _ (by decide)⟩, apart _ (by decide)⟩

theorem spelling_tame (type : TokenType) : Tame 14 type.spelling := by
  have lengths : type.spelling.length ≤ 14 := by cases type <;> decide
  have chars : type.spelling.all plainChar = true := by cases type <;> rfl
  exact tame_word 14 _ lengths chars

theorem arch_spelling_tame (arch : TokenType) (known : arch ∈ archTokens) : Tame 11 arch.spelling := by
  have lengths : ∀ arch ∈ archTokens, arch.spelling.length ≤ 11 := by decide
  exact ⟨lengths arch known, (spelling_tame arch).plain⟩

theorem digits_tame (base : Nat) (two : 1 < base) (hex : base ≤ 16) (count n : Nat)
    (some_ : 0 < count) (small : n < base ^ count) : Tame count (Nat.toDigits base n) := by
  constructor
  · exact (Nat.length_toDigits_le_iff two some_).mpr small
  · intro c member
    exact identifier_plain_char c (digit_identifier base c (to_digits_all base two hex n c member))

theorem hex_tame (value : Word) : Tame 8 (hexText value.toNat) :=
  digits_tame 16 (by decide) (by decide) 8 _ (by decide) value.isLt

theorem dec_tame (n : Nat) (small : n < 2 ^ 32) : Tame 10 (decText n) :=
  digits_tame 10 (by decide) (by decide) 10 n (by decide) (Nat.lt_trans small (by decide))

theorem leftpad_tame (width bound : Nat) (text : Text) (tame : Tame bound text)
    (enough : width ≤ bound) : Tame bound (text.leftpad width '0') := by
  constructor
  · rw [List.length_leftpad]
    exact max_le enough tame.short
  · intro c member
    rcases List.mem_append.mp member with zero | digit
    · rw [List.eq_of_mem_replicate zero]
      rfl
    · exact tame.plain c digit

theorem default_label_tame (nr : Nat) (small : nr < 2 ^ 32) : Tame 11 (defaultLabel nr) :=
  tame_cons 10 'L' _ rfl (leftpad_tame 4 10 _ (dec_tame nr small) (by decide))

theorem obj_print_handler (type : TokenType) (handler : Obj → Text)
    (found : Formatter.objPrint type = some handler) :
    handler = Formatter.printStr ∨ handler = Formatter.printNum ∨
      handler = Formatter.printIdentifier ∨ handler = Formatter.printHexBracket ∨
      handler = Formatter.printDecBracket ∨ handler = Formatter.printParen := by
  cases type <;> cases found <;> simp

theorem obj_tame (obj : Obj) (kept : ∀ literal, obj.literal = some literal → Tame 40 literal)
    (text : Text) (printed : Formatter.objPrinter obj = some text) : Tame 40 text := by
  have word := spelling_tame obj.type
  have dec := dec_tame obj.data.toNat obj.data.isLt
  have hex : Tame 10 ('0' :: 'x' :: hexText obj.data.toNat) :=
    tame_cons 9 '0' _ rfl (tame_cons 8 'x' _ rfl (hex_tame obj.data))
  have bracket (number : Text) (tame : Tame 10 number) (first last : Char)
      (open_ : plainChar first = true) (close : plainChar last = true) :
      Tame 40 (obj.type.spelling ++ first :: number ++ [last]) :=
    tame_mono _ _ _ (tame_append _ _ _ _ (tame_append _ _ _ _ word (tame_cons _ _ _ open_ tame))
      (tame_cons _ _ _ close (tame_nil 0))) (by decide)
  obtain ⟨handler, found, rfl⟩ := Option.map_eq_some_iff.mp printed
  rcases obj_print_handler _ handler found with rfl | rfl | rfl | rfl | rfl | rfl
  · exact tame_mono _ _ _ word (by decide)
  · unfold Formatter.printNum
    cases literal : obj.literal with
    | some characters => exact kept characters literal
    | none => exact tame_mono _ _ _ hex (by decide)
  · unfold Formatter.printIdentifier
    cases literal : obj.literal with
    | some characters => exact kept characters literal
    | none => exact tame_nil 40
  · exact bracket _ hex '[' ']' rfl rfl
  · exact bracket _ dec '[' ']' rfl rfl
  · exact bracket _ dec '(' ')' rfl rfl

def Line.objs : Line → List Obj
  | .assign line => [line.leftVar, line.rightVar]
  | .jump line => [line.cmpobj]
  | .return_ line => [line.retObj]
  | .empty | .eof | .error _ => []

def Line.Unlabelled (pc : Nat) : Line → Prop
  | .jump line => line.jt.key = none ∧ line.jf.key = none ∧
      pc + line.jt.codeNr + 1 < 2 ^ 32 ∧ pc + line.jf.codeNr + 1 < 2 ^ 32
  | _ => True

theorem line_tame (line : Line) (pc : Nat)
    (kept : ∀ obj ∈ line.objs, ∀ literal, obj.literal = some literal → Tame 40 literal)
    (unlabelled : line.Unlabelled pc) (text : Text)
    (printed : Formatter.lineText line pc = some text) : Tame 220 text := by
  cases line with
  | assign line =>
      have shownLeft := obj_tame line.leftVar (kept _ (by simp [Line.objs]))
      have shownRight := obj_tame line.rightVar (kept _ (by simp [Line.objs]))
      simp only [Formatter.lineText, Formatter.assignLine] at printed
      split at printed
      · next left right leftText rightText =>
          cases printed
          have operator : Tame 15 (if line.operator = .negative then ['=', ' ', '-']
              else line.operator.spelling ++ [' ']) := by
            split
            · exact tame_word 15 _ (by decide) rfl
            · exact tame_append 14 1 _ _ (spelling_tame _) (tame_cons 0 ' ' _ rfl (tame_nil 0))
          exact tame_mono _ _ _ (tame_append _ _ _ _ (tame_append _ _ _ _ (shownLeft left leftText)
            (tame_cons _ ' ' _ rfl operator)) (shownRight right rightText)) (by decide)
      · cases printed
  | jump line =>
      obtain ⟨jtKey, jfKey, jtSmall, jfSmall⟩ := unlabelled
      have label (label : Label) (none_ : label.key = none) (small : pc + label.codeNr + 1 < 2 ^ 32) :
          Tame 11 (Formatter.printLabel label pc) := by
        unfold Formatter.printLabel
        rw [none_]
        exact default_label_tame _ small
      have jt := label line.jt jtKey jtSmall
      have jf := label line.jf jfKey jfSmall
      have word := spelling_tame
      by_cases conditional : line.ifCondition = true
      · obtain ⟨operand, shown, rfl⟩ := Parser.jump_text line pc text conditional printed
        have operand_ := obj_tame line.cmpobj (kept _ (by simp [Line.objs])) operand shown
        have condition : Tame 112 (Parser.conditionText line.ifBang line.comparator operand) := by
          unfold Parser.conditionText
          have bang : Tame 14 (if line.ifBang then TokenType.bang.spelling else []) := by
            split
            · exact word .bang
            · exact tame_nil 14
          exact tame_mono _ _ _ (tame_append _ _ _ _ bang (tame_append _ _ _ _ (tame_append _ _ _ _
            (tame_append _ _ _ _ (tame_append _ _ _ _ (word .leftParen) (word .A))
              (tame_cons _ ' ' _ rfl (word line.comparator))) (tame_cons _ ' ' _ rfl operand_))
            (word .rightParen))) (by decide)
        have branch (name : Text) (tame : Tame 11 name) :
            Tame 26 (TokenType.goto.spelling ++ ' ' :: name) :=
          tame_append 14 12 _ _ (word .goto) (tame_cons 11 ' ' _ rfl tame)
        have other : Tame 56 (Parser.elseText
            (if line.jf.codeNr = 0 then none else some (Formatter.printLabel line.jf pc))) := by
          split
          · exact tame_nil 56
          · have ending := tame_append _ _ _ _ (word .comma)
              (tame_cons _ ' ' _ rfl (tame_append _ _ _ _ (word .else_)
                (tame_cons _ ' ' _ rfl (branch _ jf))))
            exact tame_mono _ _ _ (by simpa [Parser.elseText] using ending) (by decide)
        exact tame_mono _ _ _ (tame_append _ _ _ _ (tame_append _ _ _ _ (tame_append _ _ _ _
          (word .if_) (tame_cons _ ' ' _ rfl condition)) (tame_cons _ ' ' _ rfl (branch _ jt))) other)
          (by decide)
      · have plain : line.ifCondition = false := by simpa using conditional
        simp only [Formatter.lineText, Formatter.jumpLine, plain, Bool.not_false, if_true,
          Option.some.injEq] at printed
        subst printed
        exact tame_mono _ _ _ (tame_append _ _ _ _ (word .goto) (tame_cons _ ' ' _ rfl jt)) (by decide)
  | return_ line =>
      have obj := obj_tame line.retObj (kept _ (by simp [Line.objs]))
      obtain ⟨shown, printedObj, rfl⟩ := Option.map_eq_some_iff.mp printed
      exact tame_mono _ _ _ (tame_append _ _ _ _ (spelling_tame .return_)
        (tame_cons _ ' ' _ rfl (obj shown printedObj))) (by decide)
  | empty =>
      cases printed
      exact tame_nil 220
  | eof | error line => cases printed

end Ceccomp
