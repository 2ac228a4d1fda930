import Ceccomp.Lib.Related
import Ceccomp.Text.Ending

/-!
What happens on a line does not depend on the other ones. The parser is run twice: within the
whole source and on the line alone, in states that agree on what is left of the line.
-/

namespace Ceccomp

structure Token.Alike (token other : Token) : Prop where
  type : other.type = token.type
  start : other.start = token.start
  len : other.len = token.len
  data : other.data = token.data

def Scanner.Finishes (scanner : Scanner) : Prop :=
  ∀ n, (∀ i < n, (scanner.token i).type ∉ [.eol, .tokenEof]) → (scanner.token n).type ≠ .tokenEof

theorem finishes_next (scanner : Scanner) (finishes : scanner.Finishes)
    (more : (scanToken scanner).1.type ≠ .eol) : (scanToken scanner).2.Finishes := by
  intro n inside
  have shifted (i : Nat) : (scanToken scanner).2.token i = scanner.token (i + 1) := by
    unfold Scanner.token
    rw [after_succ]
  rw [shifted]
  apply finishes
  intro i below
  cases i with
  | zero =>
      have own : (scanner.token 0).type ≠ .eol := more
      have goes := finishes 0 fun i none_ => absurd none_ (Nat.not_lt_zero i)
      simp [own, goes]
  | succ i =>
      rw [← shifted]
      exact inside i (Nat.lt_of_succ_lt_succ below)

structure Scanner.SameRest (scanner other : Scanner) : Prop where
  rest : ∃ rest, scanner.rest = some rest ∧ other.rest = some rest
  fewer : other.unknownCount ≤ scanner.unknownCount

/-- The same is left of the line, and the line is over before the scanner gives up. -/
structure Scanner.SameLine (scanner other : Scanner) : Prop extends scanner.SameRest other where
  finishes : scanner.Finishes

/-- States that agree on the line from the next token on. -/
structure Tokens.Begins (tokens other : Tokens) : Prop where
  next : tokens.next.Alike other.next
  more : tokens.next.type ≠ .tokenEof
  rest : tokens.next.type ≠ .eol → tokens.scanner.SameLine other.scanner

structure Tokens.Alike (tokens other : Tokens) : Prop extends tokens.Begins other where
  current : tokens.current.Alike other.current

theorem scan_same_rest (a b : Scanner) (same : a.SameRest b)
    (goes : (scanToken a).1.type ≠ .tokenEof) :
    (scanToken a).1.Alike (scanToken b).1 ∧
      ((scanToken a).1.type ≠ .eol → (scanToken a).2.SameRest (scanToken b).2) := by
  obtain ⟨⟨rest, here, there⟩, fewer⟩ := same
  revert goes
  unfold scanToken
  rw [here, there]
  dsimp only
  by_cases blank : rest.dropWhile isSpace = []
  · simp only [if_pos blank]
    exact fun _ => ⟨⟨rfl, rfl, rfl, rfl⟩, fun no => absurd rfl no⟩
  · simp only [if_neg blank]
    by_cases comment : peekAt (rest.dropWhile isSpace) 0 = '#'
    · simp only [if_pos comment]
      exact fun _ => ⟨⟨rfl, rfl, rfl, rfl⟩, fun _ => ⟨⟨_, rfl, rfl⟩, fewer⟩⟩
    · simp only [if_neg comment]
      cases scanLexeme (rest.dropWhile isSpace) with
      | some lexeme => exact fun _ => ⟨⟨rfl, rfl, rfl, rfl⟩, fun _ => ⟨⟨_, rfl, rfl⟩, fewer⟩⟩
      | none =>
          by_cases many : a.unknownCount > 5
          · simp only [if_pos many]
            exact fun goes => absurd rfl goes
          · have few : ¬ b.unknownCount > 5 :=
              Nat.not_lt.mpr (Nat.le_trans fewer (Nat.not_lt.mp many))
            simp only [if_neg many, if_neg few]
            exact fun _ => ⟨⟨rfl, rfl, rfl, rfl⟩,
              fun _ => ⟨⟨_, rfl, rfl⟩, Nat.succ_le_succ fewer⟩⟩

theorem scan_alike (a b : Scanner) (same : a.SameLine b) :
    (scanToken a).1.Alike (scanToken b).1 ∧ (scanToken a).1.type ≠ .tokenEof ∧
      ((scanToken a).1.type ≠ .eol → (scanToken a).2.SameLine (scanToken b).2) := by
  have goes : (scanToken a).1.type ≠ .tokenEof :=
    same.finishes 0 fun i none_ => absurd none_ (Nat.not_lt_zero i)
  obtain ⟨alike, rest⟩ := scan_same_rest a b same.toSameRest goes
  refine ⟨alike, goes, fun more => ?_⟩
  exact { rest more with finishes := finishes_next a same.finishes more }

theorem begins_advance (s t : Tokens) (begins : s.Begins t) (more : s.next.type ≠ .eol) :
    s.advance.Alike t.advance := by
  obtain ⟨next, goes, rest⟩ := scan_alike _ _ (begins.rest more)
  exact { next, more := goes, rest, current := begins.next }

theorem sync_alike (fuel more : Nat) (s t : Tokens) (begins : s.Begins t)
    (enough : s.turns ≤ fuel) (too : t.turns ≤ more) :
    (s.sync fuel).current.Alike (t.sync more).current := by
  have some_ (tokens : Tokens) : tokens.turns ≠ 0 := by
    unfold Tokens.turns
    split <;> exact Nat.succ_ne_zero _
  induction fuel generalizing more s t with
  | zero => exact absurd (Nat.le_zero.mp enough) (some_ s)
  | succ fuel ih =>
      cases more with
      | zero => exact absurd (Nat.le_zero.mp too) (some_ t)
      | succ more =>
          unfold Tokens.sync
          rw [begins.next.type]
          by_cases eol : s.next.type = .eol
          · rw [if_pos eol, if_pos eol]
            exact begins.next
          · rw [if_neg eol, if_neg eol, if_neg begins.more, if_neg begins.more]
            have less := turns_advance s (not_or.mpr ⟨eol, begins.more⟩)
            have lesser := turns_advance t (by
              rw [begins.next.type]
              exact not_or.mpr ⟨eol, begins.more⟩)
            exact ih more _ _ (begins_advance s t begins eol).toBegins
              (Nat.le_of_lt_succ (Nat.lt_of_lt_of_le less enough))
              (Nat.le_of_lt_succ (Nat.lt_of_lt_of_le lesser too))

def SameStop (stop : ParseStop) (s : Tokens) (other : ParseStop) (t : Tokens) : Prop :=
  ∃ errorStart message comment, stop = .raised errorStart message comment ∧
    other = .raised errorStart message comment ∧ t.current.start = s.current.start

namespace Parser

variable {α β : Type}

open Related

abbrev Ends (first second : EStateM.Result ParseStop Tokens α) : Prop :=
  Outcomes Tokens.Alike SameStop Eq first second

/-- The action sees nothing but the line. -/
class Local (action : Parse α) : Prop where
  acts : Acts Tokens.Alike SameStop Eq action action

theorem ends_error (token other : Token) (message : Message) (s t : Tokens) (begins : s.Begins t)
    (at_ : token.Alike other) :
    Ends (errorAt token message s : EStateM.Result ParseStop Tokens α)
      (errorAt other message t) := by
  rw [error_at_run, error_at_run, at_.start]
  exact .error _ _ _ _ ⟨token.start, message, some 0, rfl, rfl,
    (sync_alike _ _ s t begins (sync_fuel_enough s) (sync_fuel_enough t)).start⟩

instance local_pure (a : α) : Local (pure a : Parse α) := ⟨acts_pure a a rfl⟩

instance local_bind (action : Parse α) (next : α → Parse β) [first : Local action]
    [second : ∀ a, Local (next a)] : Local (action >>= next) :=
  ⟨acts_then first.acts fun a => (second a).acts⟩

instance local_ite (condition : Prop) [Decidable condition] (first second : Parse α)
    [yes : Local first] [no : Local second] : Local (if condition then first else second) :=
  ⟨acts_ite condition yes.acts no.acts⟩

theorem local_get (next : Tokens → Parse β) (goes : ∀ s, Local (next s))
    (same : ∀ s t, s.Alike t → next t = next s) : Local (get >>= next) := by
  constructor
  apply acts_bind acts_get
  intro s t alike
  exact acts_of_eq (same s t alike) (goes s).acts

instance local_peek (expected : TokenType) : Local (peek expected) := by
  apply local_get
  · intro s
    infer_instance
  · intro s t alike
    simp only [alike.next.type]

theorem local_asked (asked : Tokens → Bool) (action : Parse Bool)
    (runs : ∀ s, action s = if asked s then .ok true s.advance else .ok false s)
    (same : ∀ s t, s.Alike t → asked t = asked s)
    (wanted : ∀ s, asked s = true → s.next.type ∉ refused) : Local action := by
  constructor
  intro s t alike
  rw [runs s, runs t, same s t alike]
  by_cases yes : asked s = true
  · rw [if_pos yes, if_pos yes]
    have more : s.next.type ≠ .eol := by
      intro eol
      apply wanted s yes
      rw [eol]
      decide
    exact .ok _ _ _ _ rfl (begins_advance s t alike.toBegins more)
  · rw [if_neg yes, if_neg yes]
    exact .ok _ _ _ _ rfl alike

theorem local_match (expected : TokenType) (wanted : expected ∉ refused) :
    Local (match_ expected) := by
  apply local_asked fun s => s.next.type == expected
  · intro s
    rw [match_run]
    simp only [beq_iff_eq]
  · intro s t alike
    rw [alike.next.type]
  · intro s same
    rw [beq_iff_eq.mp same]
    exact wanted

theorem local_match_from_to (start stop : TokenType)
    (wanted : ∀ type ∈ refused, type.fromTo start stop = false) :
    Local (matchFromTo start stop) := by
  apply local_asked fun s => s.next.type.fromTo start stop
  · intro s
    have bound := match_from_to_bind start stop pure s
    rwa [bind_pure] at bound
  · intro s t alike
    rw [alike.next.type]
  · intro s inside member
    rw [wanted _ member] at inside
    cases inside

instance local_error_next (message : Message) : Local (errorNext message : Parse α) := by
  constructor
  intro s t alike
  exact ends_error s.next t.next message s t alike.toBegins alike.next

instance local_error_current (message : Message) : Local (errorCurrent message : Parse α) := by
  constructor
  intro s t alike
  exact ends_error s.current t.current message s t alike.toBegins alike.current

instance local_match_number : Local matchNumber := by
  have number := local_match .number (by decide)
  unfold matchNumber
  infer_instance

instance local_literal_from (start : Text) : Local (literalFrom start) := by
  apply local_get
  · intro s
    infer_instance
  · intro s t alike
    simp only [alike.current.start, alike.current.len]

theorem local_closed_number (close : TokenType) (wanted : close ∉ refused) (message : Message) :
    Local (do
      if !(← matchNumber) then errorNext .expectNumber
      if !(← match_ close) then errorNext message
      return (← get).previous.data) := by
  constructor
  intro s t alike
  have begins := alike.toBegins
  simp only [match_number_bind, match_bind, get_bind, pure_run, ite_run, error_next_bind, if_true,
    Bool.not_true, Bool.not_false, Bool.false_eq_true, if_false, begins.next.type]
  by_cases number : s.next.type = .number
  · rw [if_pos number, if_pos number]
    have inside := begins_advance s t begins (by rw [number]; decide)
    rw [inside.next.type]
    by_cases closed : s.advance.next.type = close
    · rw [if_pos closed, if_pos closed]
      have more : s.advance.next.type ≠ .eol := by
        intro eol
        apply wanted
        rw [← closed, eol]
        decide
      exact .ok _ _ _ _ begins.next.data.symm (begins_advance _ _ inside.toBegins more)
    · rw [if_neg closed, if_neg closed]
      exact ends_error _ _ message _ _ inside.toBegins inside.next
  · rw [if_neg number, if_neg number]
    by_cases overflow : s.next.type = .overflowNumber
    · rw [if_pos overflow, if_pos overflow]
      exact ends_error _ _ .numberOverflow _ _ begins begins.next
    · rw [if_neg overflow, if_neg overflow]
      exact ends_error _ _ .expectNumber _ _ begins begins.next

instance local_paren_num : Local parenNum := by
  have paren := local_match .leftParen (by decide)
  have closed := local_closed_number .rightParen (by decide) .expectParen
  unfold parenNum
  dsimp only at closed ⊢
  infer_instance

instance local_bracket_num : Local bracketNum := by
  have bracket := local_match .leftBracket (by decide)
  have closed := local_closed_number .rightBracket (by decide) .expectBracket
  unfold bracketNum
  dsimp only at closed ⊢
  infer_instance

instance local_label : Local label := by
  have identifier := local_match .identifier (by decide)
  unfold label
  dsimp only
  repeat' first
    | with_reducible refine local_get _ (fun _ => ?_) (fun s t alike => ?_)
    | with_reducible refine @local_bind _ _ _ _ ?_ (fun _ => ?_)
    | with_reducible refine @local_ite _ _ _ _ _ ?_ ?_
    | infer_instance
    | simp only [Token.text, alike.current.start, alike.current.len]

instance local_return_line : Local returnLine := by
  unfold returnLine
  dsimp only
  repeat' first
    | with_reducible refine local_get _ (fun _ => ?_) (fun s t alike => ?_)
    | with_reducible refine @local_bind _ _ _ _ ?_ (fun _ => ?_)
    | with_reducible refine @local_ite _ _ _ _ _ ?_ ?_
    | exact local_match _ (by decide)
    | exact local_match_from_to _ _ (by decide)
    | infer_instance
    | simp only [alike.next.start, alike.current.type, alike.current.data]

instance local_right : Local right := by
  unfold right
  dsimp only
  repeat' first
    | with_reducible refine local_get _ (fun _ => ?_) (fun s t alike => ?_)
    | with_reducible refine @local_bind _ _ _ _ ?_ (fun _ => ?_)
    | with_reducible refine @local_ite _ _ _ _ _ ?_ ?_
    | exact local_match _ (by decide)
    | exact local_match_from_to _ _ (by decide)
    | infer_instance
    | simp only [alike.next.start, alike.current.type, alike.current.data]

instance local_left : Local left := by
  unfold left
  dsimp only
  repeat' first
    | with_reducible refine local_get _ (fun _ => ?_) (fun s t alike => ?_)
    | with_reducible refine @local_bind _ _ _ _ ?_ (fun _ => ?_)
    | with_reducible refine @local_ite _ _ _ _ _ ?_ ?_
    | infer_instance
    | simp only [alike.current.start, alike.current.type]

instance local_operator : Local operator := by
  unfold operator
  dsimp only
  repeat' first
    | with_reducible refine local_get _ (fun _ => ?_) (fun s t alike => ?_)
    | with_reducible refine @local_bind _ _ _ _ ?_ (fun _ => ?_)
    | with_reducible refine @local_ite _ _ _ _ _ ?_ ?_
    | exact local_match _ (by decide)
    | exact local_match_from_to _ _ (by decide)
    | infer_instance
    | simp only [alike.current.type]

instance local_assign_line : Local assignLine := by
  unfold assignLine
  infer_instance

instance local_ja_line : Local jaLine := by
  unfold jaLine
  infer_instance

theorem alike_text (token other : Token) (alike : token.Alike other) : other.text = token.text := by
  unfold Token.text
  rw [alike.start, alike.len]

theorem not_at_end (s : Tokens) (type : TokenType) (here : s.next.type = type)
    (known : type ∉ refused) : s.next.type ≠ .eol := by
  intro eol
  apply known
  rw [← here, eol]
  decide

/-- `compare_obj` behind the dot: the architecture is the previous token by now. -/
def dotted (lib : Libseccomp) (first : Token) : Parse (Obj × CmpType) := do
  if !(← peek .identifier) then errorNext .expectSyscall
  let scmpArch := internalArchToScmpArch (← get).previous.type
  if scmpArch = 0xFFFFFFFF then
    errorAt (← get).previous .expectArch
  let name := (← get).next
  let data := lib.resolveNameArch scmpArch name.text
  if data = 0xFFFFFFFF then errorNext .expectSyscall
  advance
  return ({ type := .number, data, literal := some (first.start.take (first.len + name.len + 1)) },
    .archSyscall)

theorem ends_dotted (lib : Libseccomp) (first other : Token) (s t : Tokens) (alike : s.Alike t)
    (same : first.Alike other) (previous : s.previous.Alike t.previous) :
    Ends (dotted lib first s) (dotted lib other t) := by
  have begins := alike.toBegins
  have text := alike_text _ _ begins.next
  unfold dotted
  simp only [get_bind, ite_run, error_next_bind, error_at_bind, pure_run, peek_bind, advance_bind,
    begins.next.type, begins.next.len, same.start, same.len, text, previous.type]
  by_cases named : s.next.type = .identifier
  · have asked : ¬ ((!(s.next.type == .identifier)) = true) := by simp [named]
    rw [if_neg asked, if_neg asked]
    have later := begins_advance s t begins (not_at_end s _ named (by decide))
    by_cases arch : internalArchToScmpArch s.previous.type = 0xFFFFFFFF
    · rw [if_pos arch, if_pos arch]
      exact ends_error _ _ .expectArch _ _ begins previous
    · rw [if_neg arch, if_neg arch]
      by_cases unknown : lib.resolveNameArch (internalArchToScmpArch s.previous.type) s.next.text =
          0xFFFFFFFF
      · rw [if_pos unknown, if_pos unknown]
        exact ends_error _ _ .expectSyscall _ _ begins begins.next
      · rw [if_neg unknown, if_neg unknown]
        exact .ok _ _ _ _ rfl later
  · have asked : (!(s.next.type == .identifier)) = true := by simp [named]
    rw [if_pos asked, if_pos asked]
    exact ends_error _ _ .expectSyscall _ _ begins begins.next

theorem compare_obj_run (lib : Libseccomp) (localArch : Word) (s : Tokens) :
    compareObj lib localArch s =
      if s.next.type = .X then .ok ({ type := .X, data := 0, literal := some s.next.text }, .number) s.advance
      else if s.next.type = .number then
        .ok ({ type := .number, data := s.next.data, literal := some s.next.text }, .number) s.advance
      else if s.next.type = .overflowNumber then errorAt s.next .numberOverflow s
      else if s.next.type = .identifier then
        if lib.resolveNameArch localArch s.next.text = 0xFFFFFFFF then
          errorAt s.next .expectSyscall s.advance
        else
          .ok ({ type := .number, data := lib.resolveNameArch localArch s.next.text
                 literal := some s.next.text }, .syscall) s.advance
      else if s.next.type.fromTo .archX86 .archSh then
        if s.advance.next.type = .dot then dotted lib s.next s.advance.advance
        else if internalArchToScmpArch s.next.type = 0xFFFFFFFF then
          errorAt s.next .expectArch s.advance
        else
          .ok ({ type := .number, data := internalArchToScmpArch s.next.type
                 literal := some s.next.text }, .arch) s.advance
      else errorAt s.next .unexpectToken s := by
  unfold compareObj
  simp only [get_bind, match_from_to_bind, match_bind, match_number_bind, ite_run,
    error_next_bind, error_current_bind, pure_run, if_true, Bool.false_eq_true, if_false,
    Bool.not_true, Bool.not_false]
  rfl

instance local_compare_obj (lib : Libseccomp) (localArch : Word) :
    Local (compareObj lib localArch) := by
  constructor
  intro s t alike
  have begins := alike.toBegins
  have next := begins.next
  rw [compare_obj_run, compare_obj_run, next.type, next.data, alike_text _ _ next]
  by_cases x : s.next.type = .X
  · rw [if_pos x, if_pos x]
    exact .ok _ _ _ _ rfl (begins_advance s t begins (not_at_end s _ x (by decide)))
  · rw [if_neg x, if_neg x]
    by_cases number : s.next.type = .number
    · rw [if_pos number, if_pos number]
      exact .ok _ _ _ _ rfl (begins_advance s t begins (not_at_end s _ number (by decide)))
    · rw [if_neg number, if_neg number]
      by_cases overflow : s.next.type = .overflowNumber
      · rw [if_pos overflow, if_pos overflow]
        exact ends_error _ _ .numberOverflow _ _ begins next
      · rw [if_neg overflow, if_neg overflow]
        by_cases named : s.next.type = .identifier
        · rw [if_pos named, if_pos named]
          have later := begins_advance s t begins (not_at_end s _ named (by decide))
          by_cases unknown : lib.resolveNameArch localArch s.next.text = 0xFFFFFFFF
          · rw [if_pos unknown, if_pos unknown]
            exact ends_error _ _ .expectSyscall _ _ later.toBegins next
          · rw [if_neg unknown, if_neg unknown]
            exact .ok _ _ _ _ rfl later
        · rw [if_neg named, if_neg named]
          by_cases arch : s.next.type.fromTo .archX86 .archSh = true
          · rw [if_pos arch, if_pos arch]
            have later := begins_advance s t begins (not_at_end s _ rfl (arch_wanted _ arch))
            rw [later.next.type]
            by_cases dot : s.advance.next.type = .dot
            · rw [if_pos dot, if_pos dot]
              have third := begins_advance _ _ later.toBegins (not_at_end _ _ dot (by decide))
              exact ends_dotted lib _ _ _ _ third next next
            · rw [if_neg dot, if_neg dot]
              by_cases unknown : internalArchToScmpArch s.next.type = 0xFFFFFFFF
              · rw [if_pos unknown, if_pos unknown]
                exact ends_error _ _ .expectArch _ _ later.toBegins next
              · rw [if_neg unknown, if_neg unknown]
                exact .ok _ _ _ _ rfl later
          · rw [if_neg arch, if_neg arch]
            exact ends_error _ _ .unexpectToken _ _ begins next

instance local_condition (lib : Libseccomp) (localArch : Word) :
    Local (condition lib localArch) := by
  unfold condition
  dsimp only
  repeat' first
    | with_reducible refine local_get _ (fun _ => ?_) (fun s t alike => ?_)
    | with_reducible refine @local_bind _ _ _ _ ?_ (fun _ => ?_)
    | with_reducible refine @local_ite _ _ _ _ _ ?_ ?_
    | exact local_match _ (by decide)
    | exact local_match_from_to _ _ (by decide)
    | infer_instance
    | simp only [alike.current.type]

instance local_jump_line (lib : Libseccomp) (localArch : Word) :
    Local (jumpLine lib localArch) := by
  unfold jumpLine
  dsimp only
  repeat' first
    | with_reducible refine @local_bind _ _ _ _ ?_ (fun _ => ?_)
    | with_reducible refine @local_ite _ _ _ _ _ ?_ ?_
    | exact local_match _ (by decide)
    | infer_instance

instance local_skip_columns (left : Nat) : Local (skipColumns left) := by
  induction left with
  | zero =>
      unfold skipColumns
      infer_instance
  | succ left ih =>
      unfold skipColumns
      infer_instance

theorem line_number (lib : Libseccomp) (localArch : Word) (codeNr number : Nat)
    (few : number ≤ bpfMaxInsns) (s : Tokens) :
    line lib localArch codeNr s = line lib localArch number s ∨
      line lib localArch codeNr s = .error (.exit .statementOverflow) s := by
  rw [line_run, line_run, if_neg (Nat.not_lt.mpr few)]
  by_cases empty : s.next.type = .eol ∨ s.next.type = .comment
  · rw [if_pos empty, if_pos empty]
    exact Or.inl rfl
  · rw [if_neg empty, if_neg empty]
    by_cases eof : s.next.type = .tokenEof
    · rw [if_pos eof, if_pos eof]
      exact Or.inl rfl
    · rw [if_neg eof, if_neg eof]
      by_cases many : codeNr > bpfMaxInsns
      · rw [if_pos many]
        exact Or.inr rfl
      · rw [if_neg many]
        exact Or.inl rfl

theorem outcomes_begin {first second : EStateM.Result ParseStop Tokens α}
    (ends : Ends first second) : Outcomes Tokens.Begins SameStop Eq first second := by
  cases ends with
  | ok a b s t values states => exact .ok a b s t values states.toBegins
  | error e f s t failures => exact .error e f s t failures

theorem line_ends (lib : Libseccomp) (localArch : Word) (codeNr : Nat)
    (few : codeNr ≤ bpfMaxInsns) (s t : Tokens) (begins : s.Begins t) :
    Outcomes Tokens.Begins SameStop Eq (line lib localArch codeNr s)
      (line lib localArch codeNr t) := by
  have still : ¬ codeNr > bpfMaxInsns := Nat.not_lt.mpr few
  rw [line_run, line_run, begins.next.type, if_neg still, if_neg still, if_neg begins.more,
    if_neg begins.more]
  by_cases empty : s.next.type = .eol ∨ s.next.type = .comment
  · rw [if_pos empty, if_pos empty]
    exact .ok _ _ _ _ rfl begins
  · rw [if_neg empty, if_neg empty]
    have later := begins_advance s t begins (not_or.mp empty).1
    by_cases return_ : s.next.type = .return_
    · rw [if_pos return_, if_pos return_]
      exact outcomes_begin (Local.acts _ _ later)
    · rw [if_neg return_, if_neg return_]
      by_cases if_ : s.next.type = .if_
      · rw [if_pos if_, if_pos if_]
        exact outcomes_begin ((local_jump_line lib localArch).acts _ _ later)
      · rw [if_neg if_, if_neg if_]
        by_cases goto : s.next.type = .goto
        · rw [if_pos goto, if_pos goto]
          exact outcomes_begin (local_ja_line.acts _ _ later)
        · rw [if_neg goto, if_neg goto]
          by_cases target : s.next.type.fromTo .A .mem = true
          · rw [if_pos target, if_pos target]
            exact outcomes_begin (local_assign_line.acts _ _ later)
          · rw [if_neg target, if_neg target]
            exact outcomes_begin (ends_error _ _ .unexpectToken s t begins begins.next)

theorem past_comment_begins (s t : Tokens) (begins : s.Begins t) :
    (pastComment s).Begins (pastComment t) := by
  unfold pastComment
  rw [begins.next.type]
  by_cases comment : s.next.type = .comment
  · rw [if_pos comment, if_pos comment]
    exact (begins_advance s t begins (by rw [comment]; decide)).toBegins
  · rw [if_neg comment, if_neg comment]
    exact begins

theorem line_end_ends (comment : Option Nat) (s t : Tokens) (begins : s.Begins t) :
    Outcomes (fun _ _ => True) SameStop Token.Alike (lineEnd comment s) (lineEnd comment t) := by
  rw [line_end_run, line_end_run, begins.next.type, if_neg begins.more, if_neg begins.more]
  by_cases eol : s.next.type = .eol
  · rw [if_pos eol, if_pos eol]
    exact .ok _ _ _ _ begins.next trivial
  · rw [if_neg eol, if_neg eol, begins.next.start]
    exact .error _ _ _ _ ⟨_, _, _, rfl, rfl,
      (sync_alike _ _ s t begins (sync_fuel_enough s) (sync_fuel_enough t)).start⟩

theorem expression_eq (lib : Libseccomp) (localArch : Word) (local_ : Statement) (s : Tokens) :
    expression lib localArch local_ s =
      match line lib localArch local_.codeNr s with
      | .error stop after => .error stop after
      | .ok got between =>
          match lineEnd (commentAt local_ between) (pastComment between) with
          | .error stop after => .error stop after
          | .ok ending after => .ok (ended local_ got between ending) after := by
  rcases expression_run lib localArch local_ s with
    ⟨stop, after, failed, same⟩ | ⟨got, between, done, ⟨stop, after, failed, same⟩ |
      ⟨ending, after, over_, same⟩⟩
  · rw [same, failed]
  · rw [same, done]
    dsimp only
    rw [failed]
  · rw [same, done]
    dsimp only
    rw [over_]

end Parser

def Statement.numbered (statement : Statement) (textNr codeNr : Nat) : Statement :=
  { statement with textNr, codeNr }

namespace Parser

theorem line_blank (lib : Libseccomp) (localArch : Word) (codeNr : Nat) (s between : Tokens)
    (got : Line) (ran : line lib localArch codeNr s = .ok got between)
    (blank : got = .empty ∨ got = .eof) : s.next.type ∈ [.eol, .comment, .tokenEof] := by
  have unshaped : ¬ got.Shaped := by
    rcases blank with rfl | rfl
    · exact id
    · exact id
  rw [line_run] at ran
  split at ran
  · next empty =>
      rcases empty with eol | comment
      · simp [eol]
      · simp [comment]
  · split at ran
    · next eof => simp [eof]
    · split at ran
      · cases ran
      · split at ran
        · exact absurd (return_line_shaped _ _ _ ran) unshaped
        · split at ran
          · exact absurd (jump_line_shaped lib localArch _ _ _ ran) unshaped
          · split at ran
            · exact absurd (ja_line_shaped s _ _ ran) unshaped
            · split at ran
              · next target =>
                  exact absurd (assign_line_shaped _ ((assignable_range _).mp target) _ _ ran) unshaped
              · cases ran

end Parser

theorem run_line_ok (action : Parse Statement) (local_ statement : Statement) (s after : Tokens)
    (ran : action s = .ok statement after) : runLine action local_ s = .ok (statement, after) := by
  unfold runLine
  rw [ran]

/-- What two runs of the same line have in common. -/
inductive SameLine (textNr codeNr : Nat) (local_ : Statement) :
    EStateM.Result ParseStop Tokens Statement → EStateM.Result ParseStop Tokens Statement → Prop where
  | done (statement : Statement) (after last : Tokens) :
      SameLine textNr codeNr local_ (.ok statement after)
        (.ok (statement.numbered textNr codeNr) last)
  | failed (errorStart : Text) (message : Message) (comment : Option Nat) (after last : Tokens)
      (length : last.current.start = after.current.start) :
      SameLine textNr codeNr local_ (.error (.raised errorStart message comment) after)
        (.error (.raised errorStart message comment) last)

theorem same_line_runs (textNr codeNr : Nat) (local_ : Statement) (first second : Parse Statement)
    (s t : Tokens) (same : SameLine textNr codeNr local_ (first s) (second t)) :
    ∃ statement after last, runLine first local_ s = .ok (statement, after) ∧
      runLine second (local_.numbered textNr codeNr) t =
        .ok (statement.numbered textNr codeNr, last) := by
  unfold runLine
  generalize first s = one at same ⊢
  generalize second t = other at same ⊢
  cases same with
  | done statement after last => exact ⟨_, _, _, rfl, rfl⟩
  | failed errorStart message comment after last length =>
      refine ⟨_, _, last, rfl, ?_⟩
      simp only [errorStatement, Statement.numbered, length]

theorem expression_same (lib : Libseccomp) (localArch : Word) (local_ : Statement)
    (textNr codeNr : Nat) (few : codeNr ≤ bpfMaxInsns) (s t : Tokens) (begins : s.Begins t)
    (number : Parser.line lib localArch local_.codeNr s = Parser.line lib localArch codeNr s) :
    SameLine textNr codeNr local_ (Parser.expression lib localArch local_ s)
      (Parser.expression lib localArch (local_.numbered textNr codeNr) t) := by
  have ends := Parser.line_ends lib localArch codeNr few s t begins
  rw [Parser.expression_eq, Parser.expression_eq, number]
  have own : (local_.numbered textNr codeNr).codeNr = codeNr := rfl
  rw [own]
  generalize Parser.line lib localArch codeNr s = one at ends ⊢
  generalize Parser.line lib localArch codeNr t = other at ends ⊢
  cases ends with
  | error e f s t failures =>
      obtain ⟨errorStart, message, comment, rfl, rfl, length⟩ := failures
      exact .failed errorStart message comment s t length
  | ok got same between later values states =>
      cases values
      dsimp only
      have comment : Parser.commentAt (local_.numbered textNr codeNr) later =
          Parser.commentAt local_ between := by
        unfold Parser.commentAt Statement.numbered
        rw [states.next.type, states.next.start]
      have finish := Parser.line_end_ends (Parser.commentAt local_ between) _ _
        (Parser.past_comment_begins between later states)
      rw [comment]
      generalize Parser.lineEnd _ (pastComment between) = one at finish ⊢
      generalize Parser.lineEnd _ (pastComment later) = other at finish ⊢
      cases finish with
      | error e f s t failures =>
          obtain ⟨errorStart, message, comment, rfl, rfl, length⟩ := failures
          exact .failed errorStart message comment s t length
      | ok ending ended s t tokens _ =>
          have shown : Parser.ended (local_.numbered textNr codeNr) got later ended =
              (Parser.ended local_ got between ending).numbered textNr codeNr := by
            unfold Parser.ended
            rw [comment, tokens.start]
            rfl
          dsimp only
          rw [shown]
          exact .done _ s t

/-- A line within the source and the same line alone: the program ends because there are too
many statements, or the statements differ in their numbers. -/
def Comparable (textNr codeNr : Nat) (local_ : Statement) (first second : Parse Statement)
    (s t : Tokens) : Prop :=
  ∃ alone last,
    runLine second (local_.numbered textNr codeNr) t = .ok (alone, last) ∧
    (runLine first local_ s = .error .statementOverflow ∨
      ∃ statement after, runLine first local_ s = .ok (statement, after) ∧
        alone = statement.numbered textNr codeNr)

theorem expression_alone (lib : Libseccomp) (localArch : Word) (local_ : Statement)
    (textNr codeNr : Nat) (few : codeNr ≤ bpfMaxInsns) (s t : Tokens) (begins : s.Begins t) :
    Comparable textNr codeNr local_ (Parser.expression lib localArch local_)
      (Parser.expression lib localArch (local_.numbered textNr codeNr)) s t := by
  rcases Parser.line_number lib localArch local_.codeNr codeNr few s with
    number | exits
  · obtain ⟨statement, after, last, ran, alone⟩ := same_line_runs _ _ _ _ _ s t
      (expression_same lib localArch local_ textNr codeNr few s t begins number)
    exact ⟨_, last, alone, Or.inr ⟨statement, after, ran, rfl⟩⟩
  · have same := expression_same lib localArch (local_.numbered textNr codeNr) textNr codeNr few s t
      begins rfl
    obtain ⟨statement, after, last, _, alone⟩ := same_line_runs _ _ _ _ _ s t same
    refine ⟨_, last, alone, Or.inl ?_⟩
    unfold runLine
    rw [Parser.expression_eq, exits]

theorem labelled_alone (lib : Libseccomp) (localArch : Word) (local_ : Statement)
    (textNr codeNr : Nat) (few : codeNr ≤ bpfMaxInsns) (s t : Tokens) (alike : s.Alike t) :
    Comparable textNr codeNr local_
      (do Parser.skipColumns 4; Parser.expression lib localArch local_)
      (do Parser.skipColumns 4; Parser.expression lib localArch (local_.numbered textNr codeNr))
      s t := by
  have columns := (Parser.local_skip_columns 4).acts s t alike
  unfold Comparable runLine
  rw [Parser.bind_run, Parser.bind_run]
  generalize Parser.skipColumns 4 s = one at columns ⊢
  generalize Parser.skipColumns 4 t = other at columns ⊢
  cases columns with
  | error e f s t failures =>
      obtain ⟨errorStart, message, comment, rfl, rfl, length⟩ := failures
      refine ⟨_, t, rfl, Or.inr ⟨_, s, rfl, ?_⟩⟩
      simp only [errorStatement, Statement.numbered, length]
  | ok _ _ between later _ states =>
      exact expression_alone lib localArch local_ textNr codeNr few between later states.toBegins

/-- An error line for a label that an earlier line declared already. -/
structure DeclaredTwice (statement alone : Statement) (key : Text) : Prop where
  label : alone.labelDecl = some key
  again : statement.labelDecl = some key
  start : statement.lineStart = alone.lineStart
  line : statement.line =
    .error { errorStart := statement.lineStart, errorMsg := .duplicatedLabel }

theorem finishes (done : Except Message (Statement × Tokens)) (textNr codeNr : Nat)
    (table : LabelTable) (statement : Statement) (tokens : Tokens)
    (ok : done = .ok (statement, tokens)) :
    ∃ next, done.map (fun (statement, tokens) =>
      let codeNr := if statement.line = .empty then (codeNr + 2 ^ 16 - 1) % 2 ^ 16 else codeNr
      (statement, ({ textNr, codeNr, tokens, table } : ParseState))) = .ok (statement, next) := by
  subst ok
  exact ⟨_, rfl⟩

/-- `parse_line`, within the source from the first state and alone from the second one. -/
def LineAlone (lib : Libseccomp) (localArch : Word) (state : ParseState) (t : Tokens) : Prop :=
  ∃ alone last,
    parseLine lib localArch { textNr := 0, codeNr := 0, tokens := t, table := [] } =
      .ok (alone, last) ∧
    (parseLine lib localArch state = .error .statementOverflow ∨
      ∃ statement next, parseLine lib localArch state = .ok (statement, next) ∧
        (statement = alone.numbered statement.textNr statement.codeNr ∨
          ∃ key, DeclaredTwice statement alone key ∧ ∃ nr, (key, nr) ∈ state.table))

theorem line_alone_of (lib : Libseccomp) (localArch : Word) (state : ParseState) (t s' t' : Tokens)
    (local_ : Statement) (table added : LabelTable) (first second : Parse Statement)
    (same : Comparable 1 1 local_ first second s' t')
    (runs : parseLine lib localArch state =
      (runLine first local_ s').map fun (statement, tokens) =>
        let codeNr := if statement.line = .empty then
          ((state.codeNr + 1) % 2 ^ 16 + 2 ^ 16 - 1) % 2 ^ 16 else (state.codeNr + 1) % 2 ^ 16
        (statement, { textNr := (state.textNr + 1) % 2 ^ 16, codeNr, tokens, table }))
    (other : parseLine lib localArch { textNr := 0, codeNr := 0, tokens := t, table := [] } =
      (runLine second (local_.numbered 1 1) t').map fun (statement, tokens) =>
        let codeNr := if statement.line = .empty then (1 + 2 ^ 16 - 1) % 2 ^ 16 else 1
        (statement, { textNr := 1, codeNr, tokens, table := added })) :
    LineAlone lib localArch state t := by
  obtain ⟨alone, last, ran, outcome⟩ := same
  obtain ⟨next, done⟩ := finishes _ 1 1 added alone last ran
  refine ⟨alone, next, other.trans done, ?_⟩
  rcases outcome with exits | ⟨statement, after, ok, rfl⟩
  · refine Or.inl ?_
    rw [runs, exits]
    rfl
  · obtain ⟨next, done⟩ := finishes _ _ _ table statement after ok
    exact Or.inr ⟨statement, next, runs.trans done, Or.inl rfl⟩

theorem parse_line_plain (lib : Libseccomp) (localArch : Word) (textNr codeNr : Nat)
    (tokens : Tokens) (table : LabelTable) (plain : tokens.next.type ≠ .labelDecl) :
    parseLine lib localArch { textNr, codeNr, tokens, table } =
      (runLine (Parser.expression lib localArch
        { Statement.zero with
          textNr := (textNr + 1) % 2 ^ 16, codeNr := (codeNr + 1) % 2 ^ 16
          lineStart := tokens.next.start })
        { Statement.zero with
          textNr := (textNr + 1) % 2 ^ 16, codeNr := (codeNr + 1) % 2 ^ 16
          lineStart := tokens.next.start } tokens).map fun (statement, tokens) =>
        let codeNr := if statement.line = .empty then
          ((codeNr + 1) % 2 ^ 16 + 2 ^ 16 - 1) % 2 ^ 16 else (codeNr + 1) % 2 ^ 16
        (statement, { textNr := (textNr + 1) % 2 ^ 16, codeNr, tokens, table }) := by
  unfold parseLine
  dsimp only
  rw [if_neg plain]

def labelKey (tokens : Tokens) : Text := tokens.next.start.take (tokens.next.len - 1)

/-- The statement of a line with a label before the rest of it is looked at. -/
def labelled (textNr codeNr : Nat) (tokens : Tokens) : Statement :=
  { Statement.zero with
    textNr := (textNr + 1) % 2 ^ 16, codeNr := (codeNr + 1) % 2 ^ 16
    lineStart := tokens.next.start, labelDecl := some (labelKey tokens) }

theorem parse_line_labelled (lib : Libseccomp) (localArch : Word) (textNr codeNr : Nat)
    (tokens : Tokens) (table added : LabelTable) (duplicate : Bool)
    (declares : tokens.next.type = .labelDecl)
    (inserted : insertKey table (labelKey tokens) ((codeNr + 1) % 2 ^ 16) = (duplicate, added)) :
    parseLine lib localArch { textNr, codeNr, tokens, table } =
      (runLine
        (if duplicate then Parser.errorCurrent .duplicatedLabel
          else do
            Parser.skipColumns 4
            Parser.expression lib localArch (labelled textNr codeNr tokens))
        (labelled textNr codeNr tokens) tokens.advance).map fun (statement, tokens) =>
        let codeNr := if statement.line = .empty then
          ((codeNr + 1) % 2 ^ 16 + 2 ^ 16 - 1) % 2 ^ 16 else (codeNr + 1) % 2 ^ 16
        (statement, { textNr := (textNr + 1) % 2 ^ 16, codeNr, tokens, table := added }) := by
  unfold parseLine
  dsimp only
  have same : insertKey table
      (tokens.advance.current.start.take (tokens.advance.current.len - 1))
      ((codeNr + 1) % 2 ^ 16) = (duplicate, added) := inserted
  rw [if_pos declares, same]
  cases duplicate <;> rfl

theorem labelled_keeps (lib : Libseccomp) (localArch : Word) (local_ statement : Statement)
    (s after : Tokens)
    (ran : runLine (do Parser.skipColumns 4; Parser.expression lib localArch local_) local_ s =
      .ok (statement, after)) :
    statement.labelDecl = local_.labelDecl := by
  unfold runLine at ran
  split at ran
  · next done =>
      cases ran
      obtain ⟨_, between, _, ran⟩ := (Parser.bind_ok ..).mp done
      exact (Parser.expression_parsed lib localArch _ _ _ _ ran).labelDecl
  · cases ran
    rfl
  · cases ran

theorem parse_line_alone (lib : Libseccomp) (localArch : Word) (state : ParseState) (t : Tokens)
    (begins : state.tokens.Begins t) : LineAlone lib localArch state t := by
  obtain ⟨textNr, codeNr, tokens, table⟩ := state
  dsimp only at begins
  by_cases declares : tokens.next.type = .labelDecl
  · have alike := begins_advance tokens t begins (by rw [declares]; decide)
    have key : labelKey t = labelKey tokens := by
      unfold labelKey
      rw [begins.next.start, begins.next.len]
    have alone := parse_line_labelled lib localArch 0 0 t [] [(labelKey t, 1)] false
      (begins.next.type.trans declares) rfl
    have same : labelled 0 0 t = (labelled textNr codeNr tokens).numbered 1 1 := by
      unfold labelled Statement.numbered
      rw [key, begins.next.start]
      rfl
    rw [same] at alone
    have comparable := labelled_alone lib localArch (labelled textNr codeNr tokens) 1 1 (by decide)
      tokens.advance t.advance alike
    rcases insert_key_cases table (labelKey tokens) ((codeNr + 1) % 2 ^ 16) with
      ⟨twice, known, _⟩ | ⟨fresh, _, _⟩
    · have runs := parse_line_labelled lib localArch textNr codeNr tokens table _ true declares
        (Prod.ext twice rfl)
      obtain ⟨other, last, ran, _⟩ := comparable
      obtain ⟨next, done⟩ := finishes _ 1 1 [(labelKey t, 1)] other last ran
      obtain ⟨after, failed⟩ : ∃ after, parseLine lib localArch { textNr, codeNr, tokens, table } =
          .ok (errorStatement (labelled textNr codeNr tokens) tokens.next.start .duplicatedLabel
            (some 0) (tokens.advance.sync tokens.advance.syncFuel), after) := ⟨_, runs⟩
      refine ⟨other, next, alone.trans done, Or.inr ⟨_, after, failed, Or.inr ⟨_, ?_, known⟩⟩⟩
      have start := parse_line_start lib localArch _ _ _ (alone.trans done)
      exact
        { label := labelled_keeps lib localArch _ other _ last ran
          again := rfl
          start := begins.next.start.symm.trans start.symm
          line := rfl }
    · have runs := parse_line_labelled lib localArch textNr codeNr tokens table _ false declares
        (Prod.ext fresh rfl)
      exact line_alone_of lib localArch _ t tokens.advance t.advance _ _ _ _ _ comparable runs
        alone
  · have plain : t.next.type ≠ .labelDecl := begins.next.type ▸ declares
    have alone := parse_line_plain lib localArch 0 0 t [] plain
    rw [begins.next.start] at alone
    exact line_alone_of lib localArch _ t tokens t _ table [] _ _
      (expression_alone lib localArch _ 1 1 (by decide) tokens t begins)
      (parse_line_plain lib localArch textNr codeNr tokens table declares) alone

end Ceccomp
