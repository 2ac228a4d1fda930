import Ceccomp.Disasm.Formatter
import Ceccomp.Disasm.Names
import Ceccomp.Text.Lexemes

/-!
Names that `render` put in the place of an operand, read by the parser. libseccomp calls
some system calls by names that begin with an underscore, and nothing keeps it from
naming one like a word of the language; the scanner takes neither for an identifier.
-/

namespace Ceccomp

/-- `seccomp_syscall_resolve_name_arch` undoes `seccomp_syscall_resolve_num_arch`. -/
def Libseccomp.Inverts (lib : Libseccomp) : Prop :=
  ∀ arch number name, lib.resolveNumArch arch number = some name →
    lib.resolveNameArch arch name = number

structure CIdentifier (name : Text) : Prop where
  nonempty : name ≠ []
  inside : ∀ c ∈ name, isIdentifier c = true
  first : (peekAt name 0).isDigit = false

def Libseccomp.NamesIdentifiers (lib : Libseccomp) : Prop :=
  ∀ arch number name, lib.resolveNumArch arch number = some name → CIdentifier name

/-- `compare_obj` accepts the operand in front of the parser, and it is the number `n`. -/
def ReadAs (lib : Libseccomp) (localArch : Word) (tokens : Tokens) (n : Word) : Prop :=
  ∃ obj cmptype after,
    Parser.compareObj lib localArch tokens = .ok (obj, cmptype) after ∧ obj.data = n

/-- The names of system call `n` under the context that can be read again: an identifier,
or in the default architecture the name of an architecture with just that number. -/
def NameKept (defaultArch arch n : Word) (name : Text) : Prop :=
  PlainName name ∧ n ≠ 0xFFFFFFFF ∨
    arch = defaultArch ∧ ∃ type ∈ archTokens, type.spelling = name ∧ internalArchToScmpArch type = n

theorem stops_paren (rest : Text) : Stops (')' :: rest) := by
  rintro c head
  cases head
  decide

theorem stops_dot (rest : Text) : Stops ('.' :: rest) := by
  rintro c head
  cases head
  decide

theorem stops_blanks (blanks rest : Text) (blank : ∀ c ∈ blanks, isSpace c = true)
    (stops : Stops rest) : Stops (blanks ++ rest) := by
  cases blanks with
  | nil => exact stops
  | cons space later =>
      rintro c head
      cases head
      have blank := blank space List.mem_cons_self
      simp only [isSpace, Bool.or_eq_true, beq_iff_eq] at blank
      rcases blank with (((rfl | rfl) | rfl) | rfl) | rfl <;> decide

theorem c_identifier_cases (name : Text) (identifier : CIdentifier name) :
    PlainName name ∨ (∃ type ∈ reservedTokens, type.spelling = name) ∨
      ∃ later, name = '_' :: later := by
  obtain ⟨c, later, rfl⟩ := List.exists_cons_of_ne_nil identifier.nonempty
  have inside := identifier.inside c List.mem_cons_self
  have digit : c.isDigit = false := identifier.first
  simp only [isIdentifier, Char.isAlphanum, digit, Bool.or_false, Bool.or_eq_true, beq_iff_eq]
    at inside
  rcases inside with alpha | rfl
  · by_cases reserved : ∃ type ∈ reservedTokens, type.spelling = c :: later
    · exact Or.inr (Or.inl reserved)
    · left
      exact
        { letter := alpha
          inside := identifier.inside
          free := fun type member same => reserved ⟨type, member, same⟩ }
  · exact Or.inr (Or.inr ⟨later, rfl⟩)

section Reading

variable (lib : Libseccomp) (localArch : Word) (tokens : Tokens) (scanner : Scanner)
  (behind : Text) (n : Word)

open Ceccomp.Parser

theorem compare_identifier (type : tokens.next.type = .identifier) :
    compareObj lib localArch tokens =
      if lib.resolveNameArch localArch tokens.next.text = 0xFFFFFFFF then
        errorAt tokens.next .expectSyscall tokens.advance
      else
        .ok ({ type := .number, data := lib.resolveNameArch localArch tokens.next.text
               literal := some tokens.next.text }, .syscall) tokens.advance := by
  rw [compare_obj_run, type]
  simp only [reduceCtorEq, if_false, if_true]

theorem compare_arch (arch : tokens.next.type ∈ archTokens) :
    compareObj lib localArch tokens =
      if tokens.advance.next.type = .dot then dotted lib tokens.next tokens.advance.advance
      else
        .ok ({ type := .number, data := internalArchToScmpArch tokens.next.type
               literal := some tokens.next.text }, .arch) tokens.advance := by
  have each : ∀ type ∈ archTokens, type ≠ .X ∧ type ≠ .number ∧ type ≠ .overflowNumber ∧
      type ≠ .identifier ∧ type.fromTo .archX86 .archSh = true ∧
      internalArchToScmpArch type ≠ 0xFFFFFFFF := by
    decide
  obtain ⟨x, number, overflow, identifier, inside, known⟩ := each _ arch
  rw [compare_obj_run, if_neg x, if_neg number, if_neg overflow, if_neg identifier, if_pos inside,
    if_neg known]

theorem dotted_identifier (first : Token) (type : tokens.next.type = .identifier)
    (known : internalArchToScmpArch tokens.previous.type ≠ 0xFFFFFFFF) :
    dotted lib first tokens =
      if lib.resolveNameArch (internalArchToScmpArch tokens.previous.type) tokens.next.text =
          0xFFFFFFFF then
        errorAt tokens.next .expectSyscall tokens
      else
        .ok ({ type := .number
               data := lib.resolveNameArch (internalArchToScmpArch tokens.previous.type)
                 tokens.next.text
               literal := some (first.start.take (first.len + tokens.next.len + 1)) },
          .archSyscall) tokens.advance := by
  unfold dotted
  simp only [get_bind, ite_run, error_next_bind, error_at_bind, pure_run, peek_bind, advance_bind,
    type, beq_self_eq_true, Bool.not_true, Bool.false_eq_true, if_false, if_neg known]
  rfl

theorem dotted_other (first : Token) (type : tokens.next.type ≠ .identifier) :
    dotted lib first tokens = errorAt tokens.next .expectSyscall tokens := by
  have asked : (!(tokens.next.type == .identifier)) = true := by simp [type]
  unfold dotted
  simp only [get_bind, ite_run, error_next_bind, peek_bind, asked, if_true]
  rfl

/-- A name libseccomp does not know is an error; any other is the number it resolves to. -/
theorem read_resolved (number : Word) (token : Token) (rest last : Tokens) (literal : Option Text)
    (cmptype : CmpType)
    (run : compareObj lib localArch tokens =
      if number = 0xFFFFFFFF then errorAt token .expectSyscall rest
      else .ok ({ type := .number, data := number, literal }, cmptype) last) :
    ReadAs lib localArch tokens n ↔ number = n ∧ n ≠ 0xFFFFFFFF := by
  unfold ReadAs
  rw [run]
  by_cases unknown : number = 0xFFFFFFFF
  · rw [if_pos unknown, error_at_run]
    constructor
    · rintro ⟨_, _, _, ran, _⟩
      cases ran
    · rintro ⟨same, known⟩
      exact absurd (same.symm.trans unknown) known
  · rw [if_neg unknown]
    constructor
    · rintro ⟨_, _, _, ran, same⟩
      cases ran
      exact ⟨same, same ▸ unknown⟩
    · rintro ⟨same, _⟩
      exact ⟨_, _, _, rfl, same⟩

theorem read_plain (name : Text) (plain : PlainName name)
    (here : tokens.At scanner (name ++ ')' :: behind)) :
    ReadAs lib localArch tokens n ↔ lib.resolveNameArch localArch name = n ∧ n ≠ 0xFFFFFFFF := by
  have lexeme := name_lexeme name (')' :: behind) plain (stops_paren behind) (by simp [peekAt])
  obtain ⟨next, _⟩ := at_lexeme lexeme tokens scanner here
  have text : tokens.next.text = name := by
    rw [next]
    exact List.take_left
  have type : tokens.next.type = .identifier := by rw [next]
  have run := compare_identifier lib localArch tokens type
  rw [text] at run
  apply read_resolved lib localArch tokens n _ _ _ _ _ _ run

theorem read_arch (arch : TokenType) (known : arch ∈ archTokens)
    (here : tokens.At scanner (arch.spelling ++ ')' :: behind)) :
    ReadAs lib localArch tokens n ↔ internalArchToScmpArch arch = n := by
  have lexeme := reserved_lexeme arch (')' :: behind) (arch_reserved arch known) (stops_paren behind)
  obtain ⟨next, later⟩ := at_lexeme lexeme tokens scanner here
  obtain ⟨paren, _⟩ := at_lexeme (sign_lexeme .rightParen behind (by decide)) tokens.advance scanner later
  have type : tokens.next.type = arch := by rw [next]
  have run := compare_arch lib localArch tokens (type.symm ▸ known)
  rw [if_neg (by simp [paren]), type] at run
  unfold ReadAs
  rw [run]
  constructor
  · rintro ⟨_, _, _, ran, same⟩
    cases ran
    exact same
  · intro same
    exact ⟨_, _, _, rfl, same⟩

theorem read_refused (type : TokenType) (next : tokens.next.type = type)
    (other : type ≠ .X ∧ type ≠ .number ∧ type ≠ .identifier ∧
      type.fromTo .archX86 .archSh = false) : ¬ ReadAs lib localArch tokens n := by
  rintro ⟨obj, cmptype, after, ran, _⟩
  obtain ⟨x, number, identifier, arch⟩ := other
  rw [compare_obj_run, next, if_neg x, if_neg number, if_neg identifier, arch,
    if_neg Bool.false_ne_true] at ran
  split at ran <;> cases ran

theorem read_dotted (arch : TokenType) (known : arch ∈ archTokens) (blanks name : Text)
    (blank : ∀ c ∈ blanks, isSpace c = true)
    (here : tokens.At scanner (arch.spelling ++ (blanks ++ '.' :: name))) :
    ∃ first : Token, compareObj lib localArch tokens = dotted lib first tokens.advance.advance ∧
      tokens.advance.advance.previous.type = arch ∧ tokens.advance.advance.At scanner name := by
  have lexeme := reserved_lexeme arch (blanks ++ '.' :: name) (arch_reserved arch known)
    (stops_blanks blanks _ blank (stops_dot name))
  obtain ⟨next, later⟩ := at_lexeme lexeme tokens scanner here
  have later := (at_blanks _ _ _ _ blank).mp later
  obtain ⟨dot, behind⟩ := at_lexeme (sign_lexeme .dot name (by decide)) tokens.advance scanner later
  have type : tokens.next.type = arch := by rw [next]
  have run := compare_arch lib localArch tokens (type.symm ▸ known)
  rw [if_pos (by rw [dot])] at run
  exact ⟨_, run, type, behind⟩

theorem reserved_not_plain (type : TokenType) (member : type ∈ reservedTokens) :
    ¬ PlainName type.spelling :=
  fun plain => plain.free type member rfl

theorem underscore_no_letter (later : Text) : (peekAt ('_' :: later) 0).isAlpha ≠ true := by
  have no : ('_' : Char).isAlpha ≠ true := by decide
  exact no

theorem underscore_not_plain (later : Text) : ¬ PlainName ('_' :: later) :=
  fun plain => underscore_no_letter later plain.letter

/-- A word in front of a parenthesis is an identifier exactly when it is a plain name. -/
theorem word_type (name : Text) (shape : name = [] ∨ CIdentifier name)
    (here : tokens.At scanner (name ++ ')' :: behind)) :
    (PlainName name ∧ tokens.next.type = .identifier ∧ tokens.next.text = name ∧
        tokens.advance.At scanner (')' :: behind)) ∨
      (¬ PlainName name ∧ tokens.next.type ≠ .identifier) := by
  rcases shape with rfl | identifier
  · obtain ⟨next, _⟩ := at_lexeme (sign_lexeme .rightParen behind (by decide)) tokens scanner here
    refine Or.inr ⟨fun plain => plain_nonempty [] plain rfl, ?_⟩
    simp [next]
  · rcases c_identifier_cases name identifier with plain | ⟨type, reserved, rfl⟩ | ⟨later, rfl⟩
    · have lexeme := name_lexeme name (')' :: behind) plain (stops_paren behind) (by simp [peekAt])
      obtain ⟨next, there⟩ := at_lexeme lexeme tokens scanner here
      refine Or.inl ⟨plain, by rw [next], ?_, there⟩
      rw [next]
      exact List.take_left
    · have lexeme := reserved_lexeme type (')' :: behind) reserved (stops_paren behind)
      obtain ⟨next, _⟩ := at_lexeme lexeme tokens scanner here
      refine Or.inr ⟨reserved_not_plain type reserved, ?_⟩
      rw [next]
      rintro rfl
      revert reserved
      decide
    · refine Or.inr ⟨underscore_not_plain later, ?_⟩
      rcases at_underscore tokens scanner _ here with next | next
      · rw [next]
        decide
      · rw [next]
        decide

theorem read_home (name : Text) (identifier : CIdentifier name)
    (resolved : lib.resolveNameArch localArch name = n)
    (here : tokens.At scanner (name ++ ')' :: behind)) :
    ReadAs lib localArch tokens n ↔ NameKept localArch localArch n name := by
  rcases c_identifier_cases name identifier with plain | ⟨type, reserved, rfl⟩ | ⟨later, rfl⟩
  · rw [read_plain lib localArch tokens scanner behind n name plain here]
    constructor
    · rintro ⟨_, known⟩
      exact Or.inl ⟨plain, known⟩
    · rintro (⟨_, known⟩ | ⟨_, type, member, same, _⟩)
      · exact ⟨resolved, known⟩
      · exact absurd same (plain.free type (arch_reserved type member))
  · have noPlain := reserved_not_plain type reserved
    by_cases arch : type ∈ archTokens
    · rw [read_arch lib localArch tokens scanner behind n type arch here]
      constructor
      · intro same
        exact Or.inr ⟨rfl, type, arch, rfl, same⟩
      · rintro (⟨plain, _⟩ | ⟨_, other, member, same, number⟩)
        · exact absurd plain noPlain
        · cases reserved_distinct other (arch_reserved other member) type reserved same
          exact number
    · have lexeme := reserved_lexeme type (')' :: behind) reserved (stops_paren behind)
      obtain ⟨next, _⟩ := at_lexeme lexeme tokens scanner here
      have word : ∀ type ∈ keywords ++ actions, type ≠ .X ∧ type ≠ .number ∧ type ≠ .identifier ∧
          type.fromTo .archX86 .archSh = false := by
        decide
      have refused := read_refused lib localArch tokens n type (by rw [next])
        (word type ((List.mem_append.mp reserved).resolve_right arch))
      refine iff_of_false refused ?_
      rintro (⟨plain, _⟩ | ⟨_, other, member, same, _⟩)
      · exact noPlain plain
      · cases reserved_distinct other (arch_reserved other member) type reserved same
        exact arch member
  · have refused : ¬ ReadAs lib localArch tokens n := by
      rcases at_underscore tokens scanner _ here with next | next
      · exact read_refused lib localArch tokens n _ next (by decide)
      · exact read_refused lib localArch tokens n _ next (by decide)
    refine iff_of_false refused ?_
    rintro (⟨plain, _⟩ | ⟨_, type, member, same, _⟩)
    · exact underscore_not_plain later plain
    · have letter := reserved_alpha type (arch_reserved type member)
      rw [same] at letter
      exact underscore_no_letter later letter

theorem read_foreign (arch : Word) (internal : TokenType)
    (known : scmpArchToInternalArch arch = some internal) (name : Text)
    (identifier : CIdentifier name) (resolved : lib.resolveNameArch arch name = n)
    (here : tokens.At scanner (internal.spelling ++ '.' :: (name ++ ')' :: behind))) :
    ReadAs lib localArch tokens n ↔ PlainName name ∧ n ≠ 0xFFFFFFFF := by
  have member : internal ∈ archTokens :=
    List.mem_map.mpr ⟨(internal, arch), List.mem_append_left _ (internal_arch_row arch internal known),
      rfl⟩
  have back := scmp_arch_round_trip arch internal known
  have row : ∀ type ∈ archTokens, internalArchToScmpArch type ≠ 0xFFFFFFFF := by decide
  obtain ⟨first, run, previous, there⟩ :=
    read_dotted lib localArch tokens scanner internal member [] _ (by simp) here
  have other (type : TokenType) (next : tokens.advance.advance.next.type = type)
      (no : type ≠ .identifier) : ¬ ReadAs lib localArch tokens n := by
    rintro ⟨_, _, _, ran, _⟩
    rw [run, dotted_other lib _ first (next ▸ no)] at ran
    cases ran
  rcases word_type _ scanner behind name (Or.inr identifier) there with
    ⟨plain, type, text, _⟩ | ⟨noPlain, type⟩
  · have named := dotted_identifier lib tokens.advance.advance first type
      (previous.symm ▸ row internal member)
    rw [previous, back, text] at named
    rw [read_resolved lib localArch tokens n _ _ _ _ _ _ (run.trans named)]
    constructor
    · rintro ⟨_, known⟩
      exact ⟨plain, known⟩
    · rintro ⟨_, known⟩
      exact ⟨resolved, known⟩
  · exact iff_of_false (other _ rfl type) fun both => noPlain both.1

end Reading

/-- The operand of a jump whose text reads back as the number it stands for: the name of
an architecture always does, that of a system call when it is kept. -/
def OperandKept (lib : Libseccomp) (defaultArch : Word) (ctx : StatCtx) (n : Word) : Prop :=
  ctx.aStat = .arch ∨
    ∃ name, lib.resolveNumArch ctx.arch n = some name ∧ NameKept defaultArch ctx.arch n name

/-- A number that `render` replaced by a name is read back exactly when the name is an
identifier of the language other than its words, or names an architecture of that number. -/
theorem printed_names_read_back (lib : Libseccomp) (knows : lib.KnowsArchs) (inverts : lib.Inverts)
    (identifiers : lib.NamesIdentifiers) (defaultArch : Word) (ctx : StatCtx) (pile left : Nat)
    (line shown : JumpLine) (n : Word) (conditional : line.ifCondition = true)
    (operand : line.cmpobj = .number n)
    (rendered : Render.resolveOperand lib defaultArch ctx pile line = some (shown, left))
    (replaced : shown.cmpobj.type = .identifier) (text behind : Text)
    (printed : Formatter.objPrinter shown.cmpobj = some text) (scanner : Scanner)
    (here : scanner.rest = some (' ' :: text ++ ')' :: behind)) (previous current : Token) :
    ReadAs lib defaultArch
        { previous, current, next := (scanToken scanner).1, scanner := (scanToken scanner).2 } n ↔
      OperandKept lib defaultArch ctx n := by
  have at_ : Tokens.At
      { previous, current, next := (scanToken scanner).1, scanner := (scanToken scanner).2 }
      scanner (text ++ ')' :: behind) := by
    rw [← at_blank]
    unfold Tokens.At
    rw [← List.cons_append, ← here]
  unfold Render.resolveOperand at rendered
  rw [if_neg (by simp [conditional]), operand] at rendered
  -- an arch is printed by its own name, which is read as it was
  by_cases arch : ctx.aStat = .arch
  · rw [if_pos arch] at rendered
    cases rendered
    rcases named : scmpArchToInternalArch n with _ | internal
    · simp [Render.tryResolveArch, scmpArchToInternalStr, Obj.number, named] at replaced
    · simp only [Render.tryResolveArch, scmpArchToInternalStr, Obj.number, named, Option.map_some,
        Formatter.objPrinter, Formatter.objPrint, Formatter.printIdentifier, Option.getD_some,
        Option.some.injEq] at printed
      subst printed
      have member : internal ∈ archTokens :=
        List.mem_map.mpr ⟨(internal, n), List.mem_append_left _ (internal_arch_row n internal named),
          rfl⟩
      rw [read_arch lib defaultArch _ scanner behind n internal member at_]
      exact iff_of_true (scmp_arch_round_trip n internal named) (Or.inl arch)
  · rw [if_neg arch] at rendered
    by_cases sysnr : ctx.aStat = .sysnr
    · rw [if_pos sysnr, Option.map_eq_some_iff] at rendered
      obtain ⟨⟨obj, rest⟩, resolved, same⟩ := rendered
      cases same
      rcases resolve_sysnr_cases lib knows defaultArch ctx.arch pile left (.number n) obj resolved with
        ⟨rfl, _⟩ | ⟨name, internal, _, found, known, rfl⟩
      · cases replaced
      · have back := inverts _ _ _ found
        have identifier := identifiers _ _ _ found
        have kept : OperandKept lib defaultArch ctx n ↔ NameKept defaultArch ctx.arch n name := by
          constructor
          · rintro (arch' | ⟨other, also, kept⟩)
            · exact absurd arch' arch
            · cases found.symm.trans also
              exact kept
          · intro kept
            exact Or.inr ⟨name, found, kept⟩
        rw [kept]
        simp only [Formatter.objPrinter, Formatter.objPrint, Formatter.printIdentifier,
          Option.map_some, Option.getD_some, Option.some.injEq] at printed
        subst printed
        -- a name under the default arch stands alone, another one behind its arch and a dot
        by_cases home : ctx.arch = defaultArch
        · rw [if_pos home] at at_
          rw [home] at back ⊢
          exact read_home lib defaultArch _ scanner behind n name identifier back at_
        · rw [if_neg home, List.append_assoc, List.cons_append] at at_
          rw [read_foreign lib defaultArch _ scanner behind n ctx.arch internal known name identifier
            back at_]
          constructor
          · exact Or.inl
          · rintro (both | ⟨same, _⟩)
            · exact both
            · exact absurd same home
    · rw [if_neg sysnr] at rendered
      cases rendered
      rw [operand] at replaced
      cases replaced

/-- A libseccomp that names system calls 0 and 156 of x86_64. -/
def readAndSysctl : Libseccomp :=
  { resolveNumArch := fun arch number =>
      if arch = 0xC000003E ∧ number = 0 then some "read".toList
      else if arch = 0xC000003E ∧ number = 156 then some "_sysctl".toList
      else none
    resolveNameArch := fun arch name =>
      if arch = 0xC000003E ∧ name = "read".toList then 0
      else if arch = 0xC000003E ∧ name = "_sysctl".toList then 156
      else 0xFFFFFFFF }

theorem read_and_sysctl_names (arch number : Word) (name : Text)
    (resolved : readAndSysctl.resolveNumArch arch number = some name) :
    arch = 0xC000003E ∧ (number = 0 ∧ name = "read".toList ∨ number = 156 ∧ name = "_sysctl".toList) := by
  simp only [readAndSysctl] at resolved
  split at resolved
  · next read =>
      cases resolved
      exact ⟨read.1, Or.inl ⟨read.2, rfl⟩⟩
  · split at resolved
    · next sysctl =>
        cases resolved
        exact ⟨sysctl.1, Or.inr ⟨sysctl.2, rfl⟩⟩
    · cases resolved

theorem read_and_sysctl_knows : readAndSysctl.KnowsArchs := by
  intro arch number name _ resolved
  obtain ⟨rfl, _⟩ := read_and_sysctl_names arch number name resolved
  exact ⟨.archX86_64, by decide⟩

theorem read_and_sysctl_inverts : readAndSysctl.Inverts := by
  intro arch number name resolved
  obtain ⟨rfl, ⟨rfl, rfl⟩ | ⟨rfl, rfl⟩⟩ := read_and_sysctl_names arch number name resolved
  · decide
  · decide

theorem read_and_sysctl_identifiers : readAndSysctl.NamesIdentifiers := by
  intro arch number name resolved
  obtain ⟨_, ⟨_, rfl⟩ | ⟨_, rfl⟩⟩ := read_and_sysctl_names arch number name resolved
  · exact { nonempty := by decide, inside := by simp [isIdentifier], first := by decide }
  · exact { nonempty := by decide, inside := by simp [isIdentifier], first := by decide }

def sysnrContext : StatCtx := { StatCtx.zero with aStat := .sysnr, arch := 0xC000003E }

def sysnrJump (n : Word) : JumpLine := jmpShown .jeq (.k n) 0 1

def namedJump (n : Word) (name : Text) : JumpLine :=
  { sysnrJump n with cmpobj := { type := .identifier, data := n, literal := some name } }

/-- What follows the comparator in the text of the jump. -/
def operandScanner (name : Text) : Scanner :=
  { rest := some (' ' :: name ++ [')']), lines := [], lineNr := 1, unknownCount := 0 }

theorem printed_names_read_back_read :
    ReadAs readAndSysctl 0xC000003E
      { previous := zeroToken, current := zeroToken
        next := (scanToken (operandScanner "read".toList)).1
        scanner := (scanToken (operandScanner "read".toList)).2 } 0 := by
  refine (printed_names_read_back readAndSysctl read_and_sysctl_knows read_and_sysctl_inverts
    read_and_sysctl_identifiers 0xC000003E sysnrContext 0x1000 0xffc (sysnrJump 0)
    (namedJump 0 "read".toList) 0 rfl rfl rfl rfl "read".toList [] rfl _ rfl _ _).mpr ?_
  refine Or.inr ⟨"read".toList, rfl, Or.inl ⟨?_, by decide⟩⟩
  exact { letter := by decide, inside := by simp [isIdentifier], free := by decide +kernel }

/-- `_sysctl` is printed for system call 156, and the scanner refuses the underscore. -/
theorem printed_name_refused :
    ¬ ∀ (lib : Libseccomp), lib.KnowsArchs → lib.Inverts → lib.NamesIdentifiers →
      ∀ (defaultArch : Word) (ctx : StatCtx) (pile left : Nat) (line shown : JumpLine) (n : Word),
      line.ifCondition = true → line.cmpobj = .number n →
      Render.resolveOperand lib defaultArch ctx pile line = some (shown, left) →
      shown.cmpobj.type = .identifier → ∀ (text behind : Text),
      Formatter.objPrinter shown.cmpobj = some text → ∀ (scanner : Scanner),
      scanner.rest = some (' ' :: text ++ ')' :: behind) → ∀ (previous current : Token),
      ReadAs lib defaultArch
        { previous, current, next := (scanToken scanner).1, scanner := (scanToken scanner).2 } n := by
  intro claim
  have read := claim readAndSysctl read_and_sysctl_knows read_and_sysctl_inverts
    read_and_sysctl_identifiers 0xC000003E sysnrContext 0x1000 0xff9 (sysnrJump 156)
    (namedJump 156 "_sysctl".toList) 156 rfl rfl rfl rfl "_sysctl".toList [] rfl
    (operandScanner "_sysctl".toList) rfl zeroToken zeroToken
  have unknown : (scanToken (operandScanner "_sysctl".toList)).1.type = .unknown := rfl
  exact read_refused _ _ _ _ _ unknown (by decide) read

end Ceccomp
