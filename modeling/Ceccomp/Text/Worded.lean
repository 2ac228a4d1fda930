import Ceccomp.Text.Echoed
import Ceccomp.Text.Operands

/-!
The statements of a program as their lines word them: what is kept of the characters can be
read again, but for an operand `arch . name` cut short.
-/

namespace Ceccomp

section Code

theorem code_part_front (front rest : Text) (unmarked : Unmarked front) :
    codePart (front ++ rest) = front ++ codePart rest := by
  have all : ∀ c ∈ front, (c != '#') = true := by
    intro c member
    rw [bne_iff_ne]
    rintro rfl
    exact unmarked.2 member
  unfold codePart
  exact List.takeWhile_append_of_pos all

def LineOver (rest : Text) : Prop := rest = [] ∨ ∃ comment, rest = '#' :: comment

theorem code_part_over (front rest : Text) (unmarked : Unmarked front) (ends : LineOver rest) :
    codePart (front ++ rest) = front := by
  have none_ : codePart rest = [] := by
    rcases ends with rfl | ⟨comment, rfl⟩
    · rfl
    · rfl
  rw [code_part_front front rest unmarked, none_, List.append_nil]

theorem code_run (name rest : Text) (run : Run isIdentifier name rest) :
    Run isIdentifier name (codePart rest) :=
  { all := run.all
    ends := fun c head => by
      cases rest with
      | nil => cases head
      | cons d later =>
          unfold codePart at head
          rw [List.takeWhile_cons] at head
          split at head
          · cases head
            exact run.ends c rfl
          · cases head }

theorem dots_kept_iff (lib : Libseccomp) (arch : TokenType) (known : arch ∈ archTokens)
    (front before behind name rest : Text) (unmarked : Unmarked front)
    (ends : ∀ c, front.reverse.head? = some c → isIdentifier c = false)
    (blankBefore : ∀ c ∈ before, isSpace c = true) (blankBehind : ∀ c ∈ behind, isSpace c = true)
    (plain : PlainName name) (run : Run isIdentifier name rest) :
    DotsKept lib (front ++ (arch.spelling ++ (before ++ '.' :: (behind ++ (name ++ rest))))) ↔
      DotKept lib arch before.length behind.length name := by
  have inside := reserved_inside arch (arch_reserved arch known)
  have head : Unmarked (front ++ (arch.spelling ++ before)) :=
    unmarked_append _ _ unmarked
      (unmarked_append _ _ (identifier_unmarked _ inside) (blanks_unmarked before blankBefore))
  have tail : Unmarked (behind ++ name) :=
    unmarked_append _ _ (blanks_unmarked behind blankBehind) (identifier_unmarked name plain.inside)
  have line : codePart (front ++ (arch.spelling ++ (before ++ '.' :: (behind ++ (name ++ rest))))) =
      front ++ (arch.spelling ++ (before ++ '.' :: (behind ++ (name ++ codePart rest)))) := by
    have first := code_part_front _ ('.' :: (behind ++ name ++ rest)) head
    have dot : codePart ('.' :: (behind ++ name ++ rest)) = '.' :: codePart (behind ++ name ++ rest) :=
      rfl
    rw [dot, code_part_front _ rest tail] at first
    simpa only [List.append_assoc] using first
  have words : dotSpelling (front ++ (arch.spelling ++ (before ++ '.' :: (behind ++
      (name ++ codePart rest))))) =
      { arch := arch.spelling, before := before.length, after := behind.length, name } := by
    apply dot_spelling_words head.1
    · exact { all := fun c member => inside c (List.mem_reverse.mp member), ends }
    · exact spelling_nonempty arch
    · exact blankBefore
    · exact blankBehind
    · exact code_run name rest run
    · exact plain_nonempty name plain
  unfold DotsKept
  rw [line, words]
  constructor
  · intro kept
    obtain ⟨other, member, same, kept⟩ := kept (by simp)
    cases reserved_distinct other (arch_reserved other member) arch (arch_reserved arch known) same
    exact kept
  · intro kept _
    exact ⟨arch, known, rfl, kept⟩

theorem dots_kept_none (lib : Libseccomp) (line : Text) (none_ : '.' ∉ codePart line) :
    DotsKept lib line :=
  fun dot => absurd dot none_

end Code

theorem line_ends_there (tokens : Tokens) (scanned : tokens.Scanned) :
    (tokens.next.type = .eol → tokens.next.start = []) ∧
      (tokens.next.type = .comment → ∃ comment, tokens.next.start = '#' :: comment) := by
  obtain ⟨before, next, _⟩ := scanned
  rw [next]
  unfold scanToken
  cases before.rest with
  | none => simp
  | some rest =>
      dsimp only
      split
      · next blank => simp [blank]
      · next more =>
          split
          · next sharp =>
              obtain ⟨c, later, same⟩ := List.exists_cons_of_ne_nil more
              rw [same] at sharp ⊢
              have first : c = '#' := sharp
              simp [first]
          · split
            · next type len data scanned =>
                have types := scan_lexeme_types _ type len data scanned
                constructor
                · intro same
                  exact absurd (by rw [show type = .eol from same]; decide) types
                · intro same
                  exact absurd (by rw [show type = .comment from same]; decide) types
            · split
              · simp
              · simp

namespace Parser

variable (lib : Libseccomp) (localArch : Word)

/-- The operand of a jump, as its line spells it: the characters that were kept are read as
the operand again, or they are cut from `arch . name`. -/
inductive OperandWorded (lineStart : Text) (obj : Obj) : Prop where
  | whole (free : '.' ∉ codePart lineStart) (text : Text)
      (printed : Formatter.objPrinter obj = some text)
      (reads : OperandReads lib localArch text obj)
  | cut (arch : TokenType) (known : arch ∈ archTokens) (before behind name : Text)
      (blankBefore : ∀ c ∈ before, isSpace c = true) (blankBehind : ∀ c ∈ behind, isSpace c = true)
      (plain : PlainName name)
      (valid : lib.resolveNameArch (internalArchToScmpArch arch) name ≠ 0xFFFFFFFF)
      (kept : DotsKept lib lineStart ↔ DotKept lib arch before.length behind.length name)
      (same : obj =
        { type := .number, data := lib.resolveNameArch (internalArchToScmpArch arch) name
          literal := some (arch.spelling ++ dotCut before behind name) })

end Parser

def Line.Worded (lib : Libseccomp) (localArch : Word) (lineStart : Text) : Line → Prop
  | .assign line => (line.Shaped ∧ line.leftVar.Legible ∧ line.rightVar.Legible) ∧
      '.' ∉ codePart lineStart
  | .jump line => Parser.JumpWorded line ∧
      (line.ifCondition = true → Parser.OperandWorded lib localArch lineStart line.cmpobj) ∧
      (line.ifCondition = false → '.' ∉ codePart lineStart)
  | .return_ line => (line.retObj.type ∈ Parser.returnTypes ∧ line.retObj.Legible) ∧
      '.' ∉ codePart lineStart
  | .empty => '.' ∉ codePart lineStart
  | .eof | .error _ => False

namespace Parser

variable (lib : Libseccomp) (localArch : Word)

theorem free_line (start between : Tokens) (scanned : start.Scanned) (dotless : start.Dotless between)
    (ends : LineOver between.next.start) : '.' ∉ codePart start.next.start := by
  obtain ⟨_, piece, same, unmarked⟩ := dotless_piece start between scanned dotless
  rw [same, code_part_over piece _ unmarked ends]
  exact unmarked.1

theorem operand_worded (start tokens at_ middle between : Tokens) (line : JumpLine)
    (scanned : start.Scanned) (front : start.Dotless tokens)
    (compared : Compared lib localArch tokens line at_ middle) (rest : middle.Dotless between)
    (ends : LineOver between.next.start) :
    OperandWorded lib localArch start.next.start line.cmpobj := by
  have sign : ∀ type ∈ comparators, type ∉ .dot :: refused ∧ type ∉ markers ∧
      type ∉ [TokenType.identifier, .labelDecl, .number, .overflowNumber] ∧
      type.spelling.reverse.head?.map isIdentifier ≠ some true := by
    decide
  obtain ⟨plain, marks, word, last⟩ := sign _ compared.comparator.1
  have upTo := dotless_trans _ _ _ front compared.dotless
  obtain ⟨here, piece, same, unmarked⟩ := dotless_piece start at_ scanned upTo
  have taken := operand_taken lib localArch at_.advance middle (scanned_advance at_) line.cmpobj
    line.cmptype compared.operand
  cases taken with
  | token dotless text printed reads =>
      have whole : start.Dotless between :=
        dotless_trans _ _ _ (.advance _ upTo plain) (dotless_trans _ _ _ dotless rest)
      exact .whole (free_line start between scanned whole ends) text printed reads
  | dotted arch known before behind name later blankBefore blankBehind plainName run begins valid
      cut =>
      obtain ⟨blanks, blank, ahead⟩ := token_ahead at_ here marks
      have spelled := (scanned_spelled at_ here marks).1
      have text : at_.next.text = at_.next.type.spelling := spelled_text spelled word
      have split : start.next.start = piece ++ (at_.next.type.spelling ++ blanks) ++
          (arch.spelling ++ (before ++ '.' :: (behind ++ (name ++ later)))) := by
        rw [same, ahead, begins, text]
        simp
      have signs : Unmarked at_.next.type.spelling := by
        rw [← text]
        exact spelled_unmarked spelled plain
      refine .cut arch known before behind name blankBefore blankBehind plainName valid ?_ cut
      rw [split]
      apply dots_kept_iff lib arch known _ before behind name later _ _ blankBefore blankBehind
        plainName run
      · exact unmarked_append _ _ unmarked (unmarked_append _ _ signs (blanks_unmarked blanks blank))
      · -- a blank or the comparator stands in front of the architecture
        intro c head
        simp only [List.reverse_append] at head
        rcases shape : blanks.reverse with _ | ⟨space, others⟩
        · rw [shape, List.nil_append] at head
          have first : at_.next.type.spelling.reverse.head? = some c := by
            rw [← head]
            cases sign : at_.next.type.spelling.reverse with
            | nil => exact absurd (List.reverse_eq_nil_iff.mp sign) (spelling_nonempty _)
            | cons d more => rfl
          simpa [first] using last
        · rw [shape] at head
          cases head
          have member : c ∈ blanks := List.mem_reverse.mp (by rw [shape]; exact List.mem_cons_self)
          rw [Bool.eq_false_iff]
          intro inside
          exact Bool.false_ne_true ((identifier_no_space c inside).symm.trans (blank c member))

theorem line_worded (codeNr : Nat) (start tokens between : Tokens) (scanned : start.Scanned)
    (front : start.Dotless tokens) (got : Line)
    (ran : line lib localArch codeNr tokens = .ok got between) (proper : got ≠ .eof)
    (ends : LineOver between.next.start) : got.Worded lib localArch start.next.start := by
  have known := scanned_reaches _ _ scanned (dotless_reaches _ _ front)
  have again := scanned_advance tokens
  rw [line_run] at ran
  split at ran
  · cases ran
    exact free_line start tokens scanned front ends
  · split at ran
    · cases ran
      exact absurd rfl proper
    · split at ran
      · cases ran
      · split at ran
        · next return_ =>
            have first : start.Dotless tokens.advance := .advance _ front (by rw [return_]; decide)
            obtain ⟨line, rfl, kind, legible⟩ := return_worded _ _ again got ran
            exact ⟨⟨kind, legible⟩, free_line start between scanned
              (dotless_trans _ _ _ first (Undotted.ok _ _ _ ran)) ends⟩
        · split at ran
          · next if_ =>
              have first : start.Dotless tokens.advance := .advance _ front (by rw [if_]; decide)
              obtain ⟨line, at_, middle, rfl, compared, rest, worded⟩ :=
                jump_compared lib localArch _ _ got ran
              refine ⟨worded, fun _ => ?_, fun plain => ?_⟩
              · exact operand_worded lib localArch start _ at_ middle between line scanned first
                  compared rest ends
              · rw [compared.conditional] at plain
                cases plain
          · split at ran
            · next goto_ =>
                have first : start.Dotless tokens.advance := .advance _ front (by rw [goto_]; decide)
                obtain ⟨line, rfl, plain, worded⟩ := ja_worded _ _ again got ran
                refine ⟨worded, fun conditional => ?_, fun _ => ?_⟩
                · rw [plain] at conditional
                  cases conditional
                · exact free_line start between scanned
                    (dotless_trans _ _ _ first (Undotted.ok _ _ _ ran)) ends
            · split at ran
              · next target =>
                  have listed := (assignable_range _).mp target
                  have sign : ∀ type ∈ [TokenType.A, .X, .mem], type ∉ .dot :: refused := by decide
                  have first : start.Dotless tokens.advance := .advance _ front (sign _ listed)
                  obtain ⟨line, rfl, shaped, legible⟩ := assign_worded _ _ listed got ran again
                  exact ⟨⟨shaped, legible⟩, free_line start between scanned
                    (dotless_trans _ _ _ first (Undotted.ok _ _ _ ran)) ends⟩
              · cases ran

end Parser

def Tokens.Persists (tokens : Tokens) : Prop :=
  ∀ after, tokens.Reaches after → after.next.type = .tokenEof → after.next.start = []

structure Statement.Worded (lib : Libseccomp) (localArch : Word) (statement : Statement) : Prop where
  label : ∀ key, statement.labelDecl = some key → PlainName key
  line : statement.line.Worded lib localArch statement.lineStart
  remark : Parser.Remark statement.line (Formatter.printComment statement)

section Statements

variable (lib : Libseccomp) (localArch : Word)

theorem remark_printed (local_ : Statement) (start between : Tokens) (got : Line) (ending : Token)
    (lineStart : local_.lineStart = start.next.start)
    (piece : ∃ piece, start.next.start = piece ++ between.next.start)
    (scanned : between.Scanned) :
    Parser.Remark got (Formatter.printComment (Parser.ended local_ got between ending)) := by
  unfold Formatter.printComment Parser.ended Parser.commentAt
  dsimp only
  by_cases comment : between.next.type = .comment
  · rw [if_pos comment]
    dsimp only
    split
    · exact Or.inl rfl
    · next some_ =>
        obtain ⟨piece, same⟩ := piece
        have behind : local_.lineStart.drop (local_.lineStart.length - between.next.start.length) =
            between.next.start := by
          rw [lineStart, same, List.length_append, Nat.add_sub_cancel, List.drop_left]
        obtain ⟨text, sharp⟩ := (line_ends_there between scanned).2 comment
        obtain ⟨count, more⟩ := Nat.exists_eq_succ_of_ne_zero some_
        rw [behind, more, sharp, List.take_succ_cons]
        exact Or.inr ⟨_, rfl⟩
  · rw [if_neg comment]
    exact Or.inl rfl

theorem expression_worded (local_ : Statement) (start tokens after : Tokens) (scanned : start.Scanned)
    (persists : start.Persists) (front : start.Dotless tokens)
    (lineStart : local_.lineStart = start.next.start)
    (label : ∀ key, local_.labelDecl = some key → PlainName key) (statement : Statement)
    (ran : Parser.expression lib localArch local_ tokens = .ok statement after)
    (proper : statement.line ≠ .eof) : statement.Worded lib localArch := by
  rcases Parser.expression_run lib localArch local_ tokens with
    ⟨stop, last, _, same⟩ | ⟨got, between, done, ⟨stop, last, _, same⟩ | ⟨ending, last, over_, same⟩⟩
  · rw [same] at ran
    cases ran
  · rw [same] at ran
    cases ran
  · rw [same] at ran
    cases ran
    obtain ⟨n, inside⟩ := Parser.Takes.ok _ _ _ done
    have there := scanned_reaches _ _ scanned (dotless_reaches _ _ front)
    obtain ⟨known, piece, split⟩ := inside_piece tokens between n there inside
    obtain ⟨_, first, begins, _⟩ := dotless_piece start tokens scanned front
    have ends : LineOver between.next.start := by
      by_cases comment : between.next.type = .comment
      · exact Or.inr ((line_ends_there between known).2 comment)
      · rw [pastComment, if_neg comment] at over_
        obtain ⟨_, ⟨eol, _⟩ | ⟨eof, _⟩⟩ := Parser.line_end_takes _ _ _ _ over_
        · exact Or.inl ((line_ends_there between known).1 eol)
        · exact Or.inl (persists between
            (reaches_trans _ _ _ (dotless_reaches _ _ front) (inside_reaches _ _ n inside)) eof)
    have worded := Parser.line_worded lib localArch _ start tokens between scanned front got done
      proper ends
    exact
      { label
        line := by
          show got.Worded lib localArch local_.lineStart
          rw [lineStart]
          exact worded
        remark := remark_printed local_ start between got ending lineStart
          ⟨first ++ piece, by rw [begins, split, List.append_assoc]⟩ known }

/-- A line that is no error, behind its label and the columns or from its first token on. -/
theorem parse_line_body (state next : ParseState) (statement : Statement)
    (parsed : parseLine lib localArch state = .ok (statement, next))
    (noError : ∀ error, statement.line ≠ .error error) :
    ∃ local_ tokens after, local_.lineStart = state.tokens.next.start ∧
      Parser.expression lib localArch local_ tokens = .ok statement after ∧
      ((state.tokens.next.type = .labelDecl ∧ local_.labelDecl = some (labelKey state.tokens) ∧
          Parser.skipColumns 4 state.tokens.advance = .ok () tokens) ∨
        (state.tokens.next.type ≠ .labelDecl ∧ local_.labelDecl = none ∧ tokens = state.tokens)) := by
  -- a raised error would be the line of the statement
  have finishes (action : Parse Statement) (local_ : Statement) (tokens after : Tokens)
      (ran : runLine action local_ tokens = .ok (statement, after)) :
      action tokens = .ok statement after := by
    unfold runLine at ran
    split at ran
    · next done =>
        cases ran
        exact done
    · cases ran
      exact absurd rfl (noError _)
    · cases ran
  unfold parseLine at parsed
  dsimp only at parsed
  split at parsed
  · next declares =>
      split at parsed
      · obtain ⟨tokens, ran, rfl⟩ := finished _ _ _ _ _ _ parsed
        cases ran
        exact absurd rfl (noError _)
      · obtain ⟨after, ran, rfl⟩ := finished _ _ _ _ _ _ parsed
        obtain ⟨_, tokens, skipped, ran⟩ := (Parser.bind_ok ..).mp (finishes _ _ _ _ ran)
        exact ⟨_, tokens, after, rfl, ran, Or.inl ⟨declares, rfl, skipped⟩⟩
  · next plain =>
      obtain ⟨after, ran, rfl⟩ := finished _ _ _ _ _ _ parsed
      exact ⟨_, _, after, rfl, finishes _ _ _ _ ran, Or.inr ⟨plain, rfl, rfl⟩⟩

theorem parse_line_worded (state next : ParseState) (scanned : state.tokens.Scanned)
    (persists : state.tokens.Persists) (statement : Statement)
    (parsed : parseLine lib localArch state = .ok (statement, next))
    (noError : ∀ error, statement.line ≠ .error error) (proper : statement.line ≠ .eof) :
    statement.Worded lib localArch := by
  obtain ⟨local_, tokens, after, lineStart, ran, ⟨declares, label, skipped⟩ | ⟨_, label, rfl⟩⟩ :=
    parse_line_body lib localArch state next statement parsed noError
  · have front : state.tokens.Dotless tokens :=
      dotless_trans _ _ _ (.advance _ .here (by rw [declares]; decide))
        (Parser.Undotted.ok _ _ _ skipped)
    refine expression_worded lib localArch local_ state.tokens tokens after scanned persists front
      lineStart ?_ statement ran proper
    intro key same
    rw [label] at same
    cases same
    exact scanned_label state.tokens scanned declares
  · refine expression_worded lib localArch local_ state.tokens state.tokens after scanned persists
      .here lineStart ?_ statement ran proper
    intro key same
    rw [label] at same
    cases same

theorem ahead_reaches (tokens : Tokens) (n : Nat) : tokens.Reaches (tokens.ahead n) := by
  induction n with
  | zero => exact .here
  | succ n ih => exact .advance _ ih

theorem reaches_ahead (tokens after : Tokens) (reached : tokens.Reaches after) :
    ∃ n, after = tokens.ahead n := by
  induction reached with
  | here => exact ⟨0, rfl⟩
  | advance between _ ih =>
      obtain ⟨n, rfl⟩ := ih
      exact ⟨n + 1, rfl⟩

theorem run_worded {state last : ParseState} {text : List Statement}
    (run : ParseRun lib localArch state text last) (scanned : state.tokens.Scanned)
    (persists : state.tokens.Persists)
    (noError : ∀ statement ∈ text, ∀ error, statement.line ≠ .error error) :
    ∀ statement ∈ text, statement.Worded lib localArch := by
  induction run with
  | stop => simp
  | line state statement next later last parsed more rest ih =>
      rw [List.forall_mem_cons] at noError ⊢
      obtain ⟨n, ahead⟩ := line_taken_ahead _ _ _ (parse_line_taken lib localArch _ _ _ parsed)
      refine ⟨parse_line_worded lib localArch state next scanned persists statement parsed noError.1
        more, ih ?_ ?_ noError.2⟩
      · rw [ahead]
        exact scanned_ahead _ scanned n
      · rw [ahead]
        intro after reached
        exact persists after (reaches_trans _ _ _ (ahead_reaches _ n) reached)

theorem lines_persist (lines : List Text) (known : ¬ Garbage lines) :
    (initParser (initScanner lines)).Persists := by
  intro after reached eof
  obtain ⟨n, rfl⟩ := reaches_ahead _ _ reached
  obtain ⟨next, _⟩ := ahead_scanned (initScanner lines) (initParser (initScanner lines)) rfl rfl n
  rw [next] at eof ⊢
  have stays : ¬ ((initScanner lines).after n).GivesUp := fun gaveUp => known ⟨n, Or.inr gaveUp⟩
  have over_ : ((initScanner lines).after n).rest = none := by
    by_contra more
    exact stays ⟨eof, more⟩
  unfold Scanner.token scanToken
  rw [over_]

theorem remark_code (statement : Statement) (line : Line)
    (remark : Parser.Remark statement.line (Formatter.printComment statement))
    (code : statement.line ≠ .empty) (also : line ≠ .empty) :
    Parser.Remark line (Formatter.printComment { statement with line }) := by
  have same : Formatter.printComment { statement with line } = Formatter.printComment statement := by
    unfold Formatter.printComment
    simp only [code, also, if_false]
  rw [same]
  rcases remark with none_ | ⟨comment, text⟩
  · exact Or.inl none_
  · rw [if_neg code] at text
    exact Or.inr ⟨comment, by rw [if_neg also, text]⟩

theorem resolve_statement_worded (table : LabelTable) (bpfLen : Nat) (statement : Statement)
    (state : ResolveState) (worded : statement.Worded lib localArch) :
    (resolveStatement table bpfLen statement state).1.Worded lib localArch := by
  obtain ⟨label, line, remark⟩ := worded
  unfold resolveStatement
  cases shape : statement.line with
  | jump jump =>
      rw [shape] at line
      obtain ⟨own, operand, plain⟩ := line
      have kept := jump_line_kept table bpfLen statement.codeNr jump
      dsimp only
      generalize Resolver.jumpLine table bpfLen statement.codeNr jump = both at kept ⊢
      have again : Statement.Worded lib localArch { statement with line := .jump both.1 } := by
        refine { label, line := ⟨?_, ?_, ?_⟩, remark := ?_ }
        · exact
            { jt := kept.jt ▸ own.jt
              jf := kept.jf ▸ own.jf
              noElse := fun none_ => by
                rw [kept.jf] at none_
                exact kept.noElse none_ (own.noElse none_)
              always := by
                rw [kept.ifCondition, kept.ifBang]
                exact own.always
              alone := by
                rw [kept.ifCondition, kept.jf]
                exact own.alone
              comparator := by
                rw [kept.ifCondition, kept.comparator]
                exact own.comparator }
        · rw [kept.ifCondition, kept.cmpobj]
          exact operand
        · rw [kept.ifCondition]
          exact plain
        · exact remark_code statement (.jump both.1) remark (by simp [shape]) (by simp)
      split <;> exact again
  | assign _ | return_ _ =>
      dsimp only
      split <;> exact { label, line, remark }
  | empty | eof | error _ => exact { label, line, remark }

theorem resolve_from_worded (table : LabelTable) (bpfLen nr : Nat) (code : List Statement)
    (state : ResolveState) (worded : ∀ statement ∈ code, statement.Worded lib localArch) :
    ∀ statement ∈ (resolveFrom table bpfLen nr code state).1, statement.Worded lib localArch := by
  induction code generalizing nr state with
  | nil => simp [resolveFrom]
  | cons statement rest ih =>
      rw [List.forall_mem_cons] at worded
      unfold resolveFrom
      dsimp only
      rw [List.forall_mem_cons]
      exact ⟨resolve_statement_worded lib localArch table bpfLen statement _ worded.1,
        ih _ _ worded.2⟩

theorem scatter_member (text code : List Statement) (statement : Statement)
    (member : statement ∈ scatter text code) : statement ∈ text ∨ statement ∈ code := by
  induction text generalizing code with
  | nil => cases member
  | cons first rest ih =>
      unfold scatter at member
      split at member
      · rcases List.mem_cons.mp member with rfl | later
        · exact Or.inl List.mem_cons_self
        · exact (ih code later).imp_left (List.mem_cons_of_mem _)
      · split at member
        · rcases List.mem_cons.mp member with rfl | later
          · exact Or.inl List.mem_cons_self
          · exact (ih [] later).imp_left (List.mem_cons_of_mem _)
        · next other more =>
            rcases List.mem_cons.mp member with rfl | later
            · exact Or.inr List.mem_cons_self
            · rcases ih more later with old | new
              · exact Or.inl (List.mem_cons_of_mem _ old)
              · exact Or.inr (List.mem_cons_of_mem _ new)

end Statements

section Programs

variable {lib : Libseccomp} {localArch : Word} (program : TextProgram lib localArch)

theorem program_no_error :
    ∀ statement ∈ program.parsed.text, ∀ error, statement.line ≠ .error error := by
  intro statement member error line
  obtain ⟨_, resolved, silent, _⟩ := resolver_run _ _ _ program.resolves
  have noError := (resolve_from_errors _ _ _ _ _ _ _ rfl silent).2
  exact noError statement (by simp [codePtrs, member, line]) error line

theorem program_known : ¬ Garbage program.lines := by
  intro unknown
  obtain ⟨statement, code, error, line⟩ :=
    garbage_seen lib localArch program.lines program.parsed program.parses unknown
  exact program_no_error program statement (List.mem_filter.mp code).1 error line

theorem program_worded : ∀ statement ∈ program.text, statement.Worded lib localArch := by
  obtain ⟨_, resolved, _⟩ := resolver_run _ _ _ program.resolves
  obtain ⟨last, run, _⟩ := parser_run lib localArch program.lines program.parsed program.parses
  have parsed := run_worded lib localArch run ⟨_, rfl, rfl⟩
    (lines_persist program.lines (program_known program)) (program_no_error program)
  have code : ∀ statement ∈ program.code, statement.Worded lib localArch := by
    rw [← resolved]
    apply resolve_from_worded
    intro statement member
    exact parsed statement (List.mem_filter.mp member).1
  intro statement member
  rcases scatter_member _ _ statement member with old | new
  · exact parsed statement old
  · exact code statement new

end Programs

end Ceccomp
