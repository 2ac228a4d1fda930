import Ceccomp.Text.Dotted

/-!
The texts an operand of a comparison can have, read by `compare_obj`: the register, a
number, the name of a system call and of an architecture, and the two around a dot.
-/

namespace Ceccomp

namespace Parser

section Operands

variable (lib : Libseccomp) (localArch : Word)

theorem paren_stops (rest : Text) : Stops (')' :: rest) ∧ peekAt (')' :: rest) 0 ≠ ':' :=
  ⟨stops_paren rest, by simp [peekAt]⟩

theorem operand_token (type : TokenType) (data : Word) (text : Text) (obj : Obj)
    (lexeme : ∀ rest, Lexeme type data text (')' :: rest))
    (taken : ∀ tokens : Tokens, tokens.next.type = type → tokens.next.data = data →
      tokens.next.text = text → tokens.advance.next.type = .rightParen →
      ∃ value, compareObj lib localArch tokens = .ok value tokens.advance ∧ obj.Same value.1) :
    OperandReads lib localArch text obj := by
  intro rest tokens scanner here
  have word := lexeme rest
  obtain ⟨next, there⟩ := at_lexeme word tokens scanner here
  have spelled : tokens.next.text = text := by
    rw [next]
    exact List.take_left
  have close := at_type (sign_lexeme .rightParen rest (by decide)) tokens.advance scanner there
  obtain ⟨value, ran, same⟩ := taken tokens (by rw [next]) (by rw [next]) spelled close
  exact ⟨value, tokens.advance, ran, same, there⟩

theorem register_reads (literal : Option Text) :
    OperandReads lib localArch TokenType.X.spelling { type := .X, data := 0, literal } := by
  refine operand_token lib localArch .X 0 _ _ (fun rest => register_lexeme .X _ (by decide)) ?_
  intro tokens type _ _ _
  refine ⟨({ type := .X, data := 0, literal := some tokens.next.text }, .number), ?_, rfl, rfl⟩
  rw [compare_obj_run, if_pos type]

theorem number_reads (word : Text) (data : Word) (number : NumberWord word data)
    (literal : Option Text) :
    OperandReads lib localArch word { type := .number, data, literal } := by
  refine operand_token lib localArch .number data _ _
    (fun rest => number _ (stops_paren rest)) ?_
  intro tokens type value _ _
  refine ⟨({ type := .number, data, literal := some tokens.next.text }, .number), ?_, rfl, rfl⟩
  rw [compare_obj_run, if_neg (by simp [type]), if_pos type, value]

theorem name_reads (name : Text) (plain : PlainName name) (number : Word)
    (resolved : lib.resolveNameArch localArch name = number) (known : number ≠ 0xFFFFFFFF)
    (literal : Option Text) :
    OperandReads lib localArch name { type := .number, data := number, literal } := by
  refine operand_token lib localArch .identifier 0 _ _
    (fun rest => name_lexeme name _ plain (paren_stops rest).1 (paren_stops rest).2) ?_
  intro tokens type _ text _
  refine ⟨({ type := .number, data := number, literal := some name }, .syscall), ?_, rfl, rfl⟩
  rw [compare_identifier lib localArch tokens type, text, resolved, if_neg known]

theorem arch_reads (arch : TokenType) (known : arch ∈ archTokens) (literal : Option Text) :
    OperandReads lib localArch arch.spelling
      { type := .number, data := internalArchToScmpArch arch, literal } := by
  refine operand_token lib localArch arch 0 _ _
    (fun rest => reserved_lexeme arch _ (arch_reserved arch known) (stops_paren rest)) ?_
  intro tokens type _ text close
  refine ⟨({ type := .number, data := internalArchToScmpArch arch, literal := some arch.spelling },
    .arch), ?_, rfl, rfl⟩
  rw [compare_arch lib localArch tokens (type.symm ▸ known), if_neg (by simp [close]), type, text]

theorem dotted_reads (arch : TokenType) (known : arch ∈ archTokens) (before after name : Text)
    (blankBefore : ∀ c ∈ before, isSpace c = true) (blankAfter : ∀ c ∈ after, isSpace c = true)
    (plain : PlainName name) (number : Word)
    (resolved : lib.resolveNameArch (internalArchToScmpArch arch) name = number)
    (valid : number ≠ 0xFFFFFFFF) (literal : Option Text) :
    OperandReads lib localArch (arch.spelling ++ (before ++ '.' :: (after ++ name)))
      { type := .number, data := number, literal } := by
  intro rest tokens scanner here
  have split : arch.spelling ++ (before ++ '.' :: (after ++ name)) ++ ')' :: rest =
      arch.spelling ++ (before ++ '.' :: (after ++ (name ++ ')' :: rest))) := by simp
  rw [split] at here
  obtain ⟨first, run, previous, there⟩ := read_dotted lib localArch tokens scanner arch known before
    _ blankBefore here
  have there := (at_blanks _ _ _ _ blankAfter).mp there
  have lexeme := name_lexeme name (')' :: rest) plain (paren_stops rest).1 (paren_stops rest).2
  obtain ⟨next, behind⟩ := at_lexeme lexeme _ scanner there
  have text : tokens.advance.advance.next.text = name := by
    rw [next]
    exact List.take_left
  have scmp : ∀ arch ∈ archTokens, internalArchToScmpArch arch ≠ 0xFFFFFFFF := by decide
  have named := dotted_identifier lib tokens.advance.advance first (by rw [next])
    (previous.symm ▸ scmp arch known)
  rw [previous, text, resolved, if_neg valid] at named
  exact ⟨_, _, run.trans named, ⟨rfl, rfl⟩, behind⟩

end Operands

end Parser

end Ceccomp
