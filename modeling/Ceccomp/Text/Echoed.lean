import Ceccomp.Text.Named

/-!
The operand of a comparison, printed from the characters that were kept of it. A single
token is read as what it was; of `arch . name` the blanks around the dot decide.
-/

namespace Ceccomp

def dotCut (before behind name : Text) : Text :=
  if name.length < before.length then before.take (name.length + 1)
  else before ++ '.' :: (behind.take (name.length - before.length) ++
    name.take (name.length - (before.length + behind.length)))

theorem name_front (name : Text) (plain : PlainName name) (count : Nat) :
    name.take count = [] ∨ CIdentifier (name.take count) := by
  cases count with
  | zero => exact Or.inl rfl
  | succ count =>
      obtain ⟨c, later, rfl⟩ := List.exists_cons_of_ne_nil (plain_nonempty name plain)
      have letter : c.isAlpha = true := plain.letter
      refine Or.inr ⟨by simp, fun d member => plain.inside d (List.mem_of_mem_take member), ?_⟩
      show c.isDigit = false
      rw [Bool.eq_false_iff]
      intro digit
      obtain ⟨low, high⟩ := (Bool.and_eq_true ..).mp digit
      have ends : c.val ≤ 57 := of_decide_eq_true high
      rcases (Bool.or_eq_true ..).mp letter with upper | lower
      · have above : 65 ≤ c.val := (of_decide_eq_true upper).1
        exact absurd (UInt32.le_trans above ends) (by decide)
      · have above : 97 ≤ c.val := of_decide_eq_true ((Bool.and_eq_true ..).mp lower).1
        exact absurd (UInt32.le_trans above ends) (by decide)

section Dots

variable (lib : Libseccomp) (localArch : Word) {arch : TokenType} (known : arch ∈ archTokens)

include known

theorem arch_blanks_run (blanks later : Text) (blank : ∀ c ∈ blanks, isSpace c = true)
    (tokens : Tokens) (scanner : Scanner)
    (here : tokens.At scanner (arch.spelling ++ blanks ++ ')' :: later)) :
    tokens.advance.At scanner (')' :: later) ∧
      ∃ literal, Parser.compareObj lib localArch tokens =
        .ok ({ type := .number, data := internalArchToScmpArch arch, literal }, .arch)
          tokens.advance := by
  rw [List.append_assoc] at here
  have lexeme := reserved_lexeme arch (blanks ++ ')' :: later) (arch_reserved arch known)
    (stops_blanks blanks _ blank (stops_paren later))
  obtain ⟨next, behind⟩ := at_lexeme lexeme tokens scanner here
  have there := (at_blanks _ _ _ _ blank).mp behind
  have close := Parser.at_type (sign_lexeme .rightParen later (by decide)) tokens.advance scanner there
  have type : tokens.next.type = arch := by rw [next]
  have run := compare_arch lib localArch tokens (type.symm ▸ known)
  rw [if_neg (by simp [close]), type] at run
  exact ⟨there, _, run⟩

variable {before behind name : Text} (blankBefore : ∀ c ∈ before, isSpace c = true)
  (blankBehind : ∀ c ∈ behind, isSpace c = true) (plain : PlainName name)

include blankBefore blankBehind plain

omit plain in
theorem kept_reads (number : Word)
    (resolved : lib.resolveNameArch (internalArchToScmpArch arch) name = number)
    (valid : number ≠ 0xFFFFFFFF) (kept : DotKept lib arch before.length behind.length name)
    (literal : Option Text) :
    Parser.OperandReads lib localArch (arch.spelling ++ dotCut before behind name)
      { type := .number, data := number, literal } := by
  unfold dotCut
  by_cases short : name.length < before.length
  · rw [if_pos short]
    have same : internalArchToScmpArch arch = number := by
      rcases kept with ⟨_, same⟩ | ⟨plainLeft, _⟩
      · rw [same, resolved]
      · have none_ : name.length - (before.length + behind.length) = 0 := by omega
        rw [none_] at plainLeft
        exact absurd rfl (plain_nonempty _ plainLeft)
    intro rest tokens scanner here
    obtain ⟨there, _, run⟩ := arch_blanks_run lib localArch known (before.take (name.length + 1)) rest
      (fun c member => blankBefore c (List.mem_of_mem_take member)) tokens scanner here
    exact ⟨_, _, run, ⟨rfl, same⟩, there⟩
  · rw [if_neg short]
    rcases kept with ⟨long, _⟩ | ⟨plainLeft, same⟩
    · exact absurd long short
    · -- a name is left, so that all blanks are
      have some_ : before.length + behind.length < name.length := by
        by_contra few
        have none_ : name.length - (before.length + behind.length) = 0 := by omega
        rw [none_] at plainLeft
        exact plain_nonempty _ plainLeft rfl
      rw [List.take_of_length_le (by omega)]
      exact Parser.dotted_reads lib localArch arch known before behind _ blankBefore blankBehind
        plainLeft number (by rw [same, resolved]) valid literal

theorem reads_kept (number : Word)
    (resolved : lib.resolveNameArch (internalArchToScmpArch arch) name = number)
    (later : Text) (tokens : Tokens) (scanner : Scanner)
    (here : tokens.At scanner (arch.spelling ++ dotCut before behind name ++ ')' :: later))
    (read : ReadAs lib localArch tokens number) :
    DotKept lib arch before.length behind.length name := by
  unfold dotCut at here
  by_cases short : name.length < before.length
  · rw [if_pos short] at here
    obtain ⟨_, _, run⟩ := arch_blanks_run lib localArch known _ later
      (fun c member => blankBefore c (List.mem_of_mem_take member)) tokens scanner here
    obtain ⟨obj, cmptype, after, ran, same⟩ := read
    rw [run] at ran
    cases ran
    exact Or.inl ⟨short, by rw [resolved]; exact same⟩
  · rw [if_neg short] at here
    right
    have there : tokens.At scanner (arch.spelling ++ (before ++ '.' ::
        (behind.take (name.length - before.length) ++
          (name.take (name.length - (before.length + behind.length)) ++ ')' :: later)))) := by
      simpa only [List.append_assoc, List.cons_append] using here
    obtain ⟨first, run, previous, dot⟩ := read_dotted lib localArch tokens scanner arch known before _
      blankBefore there
    have word := (at_blanks _ _ _ _ fun c member =>
      blankBehind c (List.mem_of_mem_take member)).mp dot
    have row : ∀ arch ∈ archTokens, internalArchToScmpArch arch ≠ 0xFFFFFFFF := by decide
    rcases word_type _ scanner later _ (name_front name plain _) word with
      ⟨plainLeft, type, text, _⟩ | ⟨_, type⟩
    · have named := dotted_identifier lib tokens.advance.advance first type
        (previous.symm ▸ row arch known)
      rw [previous, text] at named
      have same := (read_resolved lib localArch tokens number _ _ _ _ _ _ (run.trans named)).mp read
      exact ⟨plainLeft, by rw [resolved]; exact same.1⟩
    · obtain ⟨obj, cmptype, after, ran, _⟩ := read
      rw [run, dotted_other lib _ first type] at ran
      cases ran

end Dots

theorem reserved_length {text : Text} {type : TokenType} {len : Nat} {data : Word}
    (spelled : Spelled text type len data) (member : type ∈ reservedTokens) :
    len = type.spelling.length := by
  cases spelled with
  | reserved => rfl
  | word =>
      rcases scan_word_type text with kind | kind
      · rw [kind] at member
        exact absurd member (by decide)
      · rw [kind] at member
        exact absurd member (by decide)
  | number => exact absurd member (by decide)
  | overflow => exact absurd member (by decide)
  | punct _ _ scanned =>
      exact absurd (List.mem_append_right _ member) (punct_foreign text type len scanned)

theorem identifier_run {text : Text} {type : TokenType} {len : Nat} {data : Word}
    (spelled : Spelled text type len data) (kind : type = .identifier) :
    Run isIdentifier (text.take len) (text.drop len) ∧ (text.take len).length = len := by
  cases spelled with
  | reserved _ member =>
      rw [kind] at member
      exact absurd member (by decide)
  | word =>
      unfold scanWord at kind ⊢
      dsimp only at kind ⊢
      by_cases colon : peekAt text (text.takeWhile isIdentifier).length = ':'
      · rw [if_pos colon] at kind
        cases kind
      · rw [if_neg colon]
        dsimp only
        have taken := take_while_taken isIdentifier text
        have behind : text.drop (text.takeWhile isIdentifier).length = text.dropWhile isIdentifier := by
          have whole := List.take_append_drop (text.takeWhile isIdentifier).length text
          rw [taken] at whole
          exact List.append_cancel_left (whole.trans List.takeWhile_append_dropWhile.symm)
        rw [taken, behind]
        exact ⟨take_while_run isIdentifier text, rfl⟩
  | number => cases kind
  | overflow => cases kind
  | punct _ _ scanned =>
      have foreign := punct_foreign text type len scanned
      rw [kind] at foreign
      exact absurd (by decide) foreign

namespace Parser

variable (lib : Libseccomp) (localArch : Word)

/-- How an operand was taken: as one token, whose characters are read as the operand
again, or as two words around a dot. -/
inductive OperandTaken (tokens : Tokens) (obj : Obj) (after : Tokens) : Prop where
  | token (dotless : tokens.Dotless after) (text : Text)
      (printed : Formatter.objPrinter obj = some text)
      (reads : OperandReads lib localArch text obj)
  | dotted (arch : TokenType) (known : arch ∈ archTokens) (before behind name rest : Text)
      (blankBefore : ∀ c ∈ before, isSpace c = true) (blankBehind : ∀ c ∈ behind, isSpace c = true)
      (plain : PlainName name) (run : Run isIdentifier name rest)
      (start : tokens.next.start = arch.spelling ++ (before ++ '.' :: (behind ++ (name ++ rest))))
      (valid : lib.resolveNameArch (internalArchToScmpArch arch) name ≠ 0xFFFFFFFF)
      (same : obj =
        { type := .number, data := lib.resolveNameArch (internalArchToScmpArch arch) name
          literal := some (arch.spelling ++ dotCut before behind name) })

theorem dotted_unknown (first : Token) (tokens : Tokens)
    (unknown : internalArchToScmpArch tokens.previous.type = 0xFFFFFFFF) (value : Obj × CmpType)
    (after : Tokens) : dotted lib first tokens ≠ .ok value after := by
  intro ran
  unfold dotted at ran
  simp only [get_bind, ite_run, error_next_bind, error_at_bind, pure_run, peek_bind, advance_bind,
    unknown, if_true] at ran
  split at ran <;> cases ran

theorem dotted_taken (tokens after : Tokens) (scanned : tokens.Scanned)
    (arch : tokens.next.type ∈ archTokens) (dot : tokens.advance.next.type = .dot) (obj : Obj)
    (cmptype : CmpType)
    (ran : dotted lib tokens.next tokens.advance.advance = .ok (obj, cmptype) after) :
    OperandTaken lib localArch tokens obj after := by
  have row : ∀ type ∈ archTokens, internalArchToScmpArch type ≠ 0xFFFFFFFF ∧ type ∉ markers ∧
      type ∉ [TokenType.identifier, .labelDecl, .number, .overflowNumber] := by
    decide
  obtain ⟨valid, marks, word⟩ := row _ arch
  by_cases named : tokens.advance.advance.next.type = .identifier
  · rw [dotted_identifier lib _ tokens.next named valid] at ran
    split at ran
    · cases ran
    · next known =>
        cases ran
        obtain ⟨before, blankBefore, first⟩ := token_ahead tokens scanned marks
        obtain ⟨behind, blankBehind, second⟩ :=
          token_ahead tokens.advance (scanned_advance _) (by rw [dot]; decide)
        have spelled := (scanned_spelled tokens scanned marks).1
        have sign := (scanned_spelled tokens.advance (scanned_advance _) (by rw [dot]; decide)).1
        have name := (scanned_spelled tokens.advance.advance (scanned_advance _)
          (by rw [named]; decide)).1
        obtain ⟨run, length⟩ := identifier_run name named
        have archText : tokens.next.text = tokens.next.type.spelling := spelled_text spelled word
        have dotText : tokens.advance.next.text = ['.'] := by
          have text := spelled_text sign (by rw [dot]; decide)
          rw [dot] at text
          exact text
        have start : tokens.next.start = tokens.next.type.spelling ++ (before ++ '.' :: (behind ++
            (tokens.advance.advance.next.text ++
              tokens.advance.advance.next.start.drop tokens.advance.advance.next.len))) := by
          rw [first, archText, second, dotText]
          congr 3
          rw [Token.text, List.take_append_drop]
          rfl
        refine .dotted _ arch before behind _ _ blankBefore blankBehind
          (scanned_name _ (scanned_advance _) named) run start known ?_
        rw [start, reserved_length spelled (arch_reserved _ arch)]
        congr 2
        rw [← length]
        exact dotted_literal
  · rw [dotted_other lib _ _ named] at ran
    cases ran

theorem operand_taken (tokens after : Tokens) (scanned : tokens.Scanned) (obj : Obj)
    (cmptype : CmpType) (ran : compareObj lib localArch tokens = .ok (obj, cmptype) after) :
    OperandTaken lib localArch tokens obj after := by
  have archs : ∀ type : TokenType, type.fromTo .archX86 .archSh = true →
      internalArchToScmpArch type ≠ 0xFFFFFFFF → type ∈ archTokens := by
    intro type
    cases type <;> decide
  rw [compare_obj_run] at ran
  split at ran
  · next register =>
      cases ran
      exact .token (.advance _ .here (by rw [register]; decide)) _ rfl (register_reads lib localArch _)
  · split at ran
    · next number =>
        cases ran
        exact .token (.advance _ .here (by rw [number]; decide)) _ rfl
          (number_reads lib localArch _ _ (scanned_number tokens scanned number) _)
    · split at ran
      · cases ran
      · split at ran
        · next name =>
            split at ran
            · cases ran
            · next valid =>
                cases ran
                exact .token (.advance _ .here (by rw [name]; decide)) _ rfl
                  (name_reads lib localArch _ (scanned_name tokens scanned name) _ rfl valid _)
        · split at ran
          · next arch =>
              have marks : tokens.next.type ∉ markers := by
                revert arch
                cases tokens.next.type <;> decide
              obtain ⟨spelled, later⟩ := scanned_spelled tokens scanned marks
              have word : tokens.next.text = tokens.next.type.spelling := by
                apply spelled_text spelled
                revert arch
                cases tokens.next.type <;> decide
              split at ran
              · next dot =>
                  by_cases valid : internalArchToScmpArch tokens.next.type = 0xFFFFFFFF
                  · exact absurd ran (dotted_unknown lib _ _ valid _ _)
                  · exact dotted_taken lib localArch tokens after scanned (archs _ arch valid) dot obj
                      cmptype ran
              · next single =>
                  split at ran
                  · cases ran
                  · next valid =>
                      cases ran
                      refine .token (.advance _ .here ?_) tokens.next.text rfl ?_
                      · revert arch
                        cases tokens.next.type <;> decide
                      · rw [word]
                        exact arch_reads lib localArch _ (archs _ arch valid) _
          · cases ran

end Parser

end Ceccomp
