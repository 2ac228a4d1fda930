import Ceccomp.Text.Source
import Ceccomp.Text.Accepting

/-!
Programs in text form that `parser` and `resolver` have nothing to say about, and
the filters `asm_statement` makes of them.
-/

namespace Ceccomp

/-- A source that was read, parsed and resolved without an error. -/
structure TextProgram (lib : Libseccomp) (localArch : Word) where
  file : Text
  lines : List Text
  parsed : Parsed
  -- what the resolver made of `code_ptr_v`
  code : List Statement
  read : sourceLines file = .ok lines
  parses : parser lib localArch lines = some (.ok parsed)
  resolves : resolver parsed.table (codePtrs parsed.text) = .ok (code, [])

/-- `text_v` once the resolver has written through the pointers to it. -/
def TextProgram.text {lib : Libseccomp} {localArch : Word} (program : TextProgram lib localArch) :
    List Statement :=
  scatter program.parsed.text program.code

def readProgram (lib : Libseccomp) (localArch : Word) (file : Text) :
    Option (TextProgram lib localArch) :=
  match read : sourceLines file with
  | .error _ => none
  | .ok lines =>
      match parses : parser lib localArch lines with
      | some (.ok parsed) =>
          match resolves : resolver parsed.table (codePtrs parsed.text) with
          | .ok (code, []) => some { file, lines, parsed, code, read, parses, resolves }
          | _ => none
      | _ => none

/-- A libseccomp that knows no system call. -/
def namelessLib : Libseccomp :=
  { resolveNumArch := fun _ _ => none, resolveNameArch := fun _ _ => 0xFFFFFFFF }

def archX8664 : Word := 0xC000003E

/-- What `parser` returns for a source of so many lines. -/
structure ParsedText (lineCount : Nat) (parsed : Parsed) : Prop where
  textNr : ∀ (i : Nat) statement, parsed.text[i]? = some statement →
    statement.textNr = (i + 1) % 2 ^ 16
  codeNr : ∀ (i : Nat) statement, parsed.text[i]? = some statement →
    statement.codeNr = (countCode (parsed.text.take i) + 1) % 2 ^ 16
  line : ∀ statement ∈ parsed.text, statement.line = .empty ∨
    (∃ error, statement.line = .error error) ∨
    (statement.line.Shaped ∧ statement.codeNr ≤ bpfMaxInsns)
  labels : ∀ key nr, (key, nr) ∈ parsed.table →
    (∃ statement ∈ parsed.text, statement.labelDecl = some key ∧ statement.codeNr = nr) ∨
    nr = (countCode parsed.text + 1) % 2 ^ 16
  length : parsed.text.length ≤ lineCount + 1

theorem init_parser_pending (lines : List Text) :
    (initParser (initScanner lines)).pending = lines.length := by
  have step := advance_pending
    { previous := zeroToken, current := zeroToken, next := zeroToken, scanner := initScanner lines }
  have start : (Tokens.mk zeroToken zeroToken zeroToken (initScanner lines)).pending =
      lines.length := by
    cases lines with
    | nil => rfl
    | cons line rest =>
        simp [Tokens.pending, Scanner.lineEnds, initScanner, isEol, zeroToken]
  rw [start] at step
  exact step

theorem parser_text (lib : Libseccomp) (localArch : Word) (lines : List Text) (parsed : Parsed)
    (parses : parser lib localArch lines = some (.ok parsed)) : ParsedText lines.length parsed := by
  obtain ⟨done, loop, same⟩ := Option.map_eq_some_iff.mp parses
  cases done with
  | error message => cases same
  | ok both =>
      obtain ⟨text, last⟩ := both
      cases same
      have all := parse_lines_text lib localArch _ _ text last loop
      refine
        { textNr := fun i statement found => ?_
          codeNr := fun i statement found => ?_
          line := all.line
          labels := fun key nr member => ?_
          length := ?_ }
      · have number := all.textNr i statement found
        dsimp only at number
        rw [number]
        congr 1
        omega
      · have number := all.codeNr i statement found
        show statement.codeNr = (countCode (text.take i) + 1) % 2 ^ 16
        dsimp only at number
        rw [number]
        congr 1
        omega
      · rcases all.labels key nr member with old | declared | behind
        · cases old
        · exact Or.inl declared
        · refine Or.inr ?_
          rw [behind]
          congr 1
          dsimp only
          omega
      · have few := all.length
        rw [init_parser_pending] at few
        show text.length ≤ lines.length + 1
        split at few <;> omega

theorem find_key_member (table : LabelTable) (key : Text) (nr : Nat)
    (found : findKey table key = nr) : (key, nr) ∈ table ∨ nr = 0xFFFF := by
  unfold findKey at found
  split at found
  · next entry here =>
      have same : entry.1 = key := by simpa using List.find?_some here
      have member := List.mem_of_find?_eq_some here
      exact Or.inl (by rw [← same, ← found]; exact member)
  · exact Or.inr found.symm

theorem find_key_fits (lineCount : Nat) (parsed : Parsed) (text : ParsedText lineCount parsed)
    (key : Text) : findKey parsed.table key < 65536 := by
  rcases find_key_member parsed.table key _ rfl with member | absent
  · rcases text.labels key _ member with ⟨statement, there, _, number⟩ | behind
    · obtain ⟨i, found⟩ := List.mem_iff_getElem?.mp there
      have small := text.codeNr i statement found
      omega
    · omega
  · omega

theorem code_at_count (text : List Statement) (i : Nat) (statement : Statement)
    (found : text[i]? = some statement) (counts : statement.line ≠ .empty) :
    (codePtrs text)[countCode (text.take i)]? = some statement := by
  induction text generalizing i with
  | nil => simp at found
  | cons first rest ih =>
      cases i with
      | zero =>
          cases found
          simp [codePtrs, counts, countCode]
      | succ i =>
          have there := ih i (by simpa using found)
          rw [List.take_succ_cons, count_code_cons]
          by_cases empty : first.line = .empty
          · simpa [codePtrs, empty] using there
          · simpa [codePtrs, empty] using there

theorem count_at_code (text : List Statement) (j : Nat) (statement : Statement)
    (found : (codePtrs text)[j]? = some statement) :
    ∃ i : Nat, text[i]? = some statement ∧ statement.line ≠ .empty ∧ countCode (text.take i) = j := by
  induction text generalizing j with
  | nil => simp [codePtrs] at found
  | cons first rest ih =>
      by_cases empty : first.line = .empty
      · have there : (codePtrs rest)[j]? = some statement := by simpa [codePtrs, empty] using found
        obtain ⟨i, here, counts, count⟩ := ih j there
        refine ⟨i + 1, by simpa using here, counts, ?_⟩
        rw [List.take_succ_cons, count_code_cons, if_pos empty, count]
        rfl
      · cases j with
        | zero =>
            have same : first = statement := by simpa [codePtrs, empty] using found
            subst same
            exact ⟨0, rfl, empty, rfl⟩
        | succ j =>
            have there : (codePtrs rest)[j]? = some statement := by simpa [codePtrs, empty] using found
            obtain ⟨i, here, counts, count⟩ := ih j there
            refine ⟨i + 1, by simpa using here, counts, ?_⟩
            rw [List.take_succ_cons, count_code_cons, if_neg empty, count]

theorem resolve_statement_reports (table : LabelTable) (bpfLen : Nat) (statement resolved : Statement)
    (state after : ResolveState)
    (done : resolveStatement table bpfLen statement state = (resolved, after))
    (silent : after.reports = []) :
    state.reports = [] ∧ ∀ error, statement.line ≠ .error error := by
  unfold resolveStatement at done
  cases line : statement.line with
  | error e =>
      simp only [line] at done
      cases done
      simp at silent
  | empty | eof =>
      simp only [line] at done
      cases done
      exact ⟨silent, nofun⟩
  | assign l | return_ l =>
      simp only [line] at done
      split at done
      · cases done
        exact absurd silent (report_reports _ _ _)
      · cases done
        exact ⟨silent, nofun⟩
  | jump l =>
      simp only [line] at done
      split at done
      · cases done
        exact absurd silent (report_reports _ _ _)
      · cases done
        rw [merged_reports] at silent
        exact ⟨silent, nofun⟩

theorem resolve_from_errors (table : LabelTable) (bpfLen nr : Nat) (code : List Statement)
    (state final : ResolveState) (resolved : List Statement)
    (done : resolveFrom table bpfLen nr code state = (resolved, final))
    (silent : final.reports = []) :
    state.reports = [] ∧ ∀ statement ∈ code, ∀ error, statement.line ≠ .error error := by
  induction code generalizing nr state resolved with
  | nil =>
      cases done
      exact ⟨silent, by simp⟩
  | cons statement rest ih =>
      simp only [resolveFrom] at done
      cases one : resolveStatement table bpfLen statement
          { state with memValid := state.memValid &&& state.masks nr } with
      | mk shown after =>
          simp only [one] at done
          cases later : resolveFrom table bpfLen (nr + 1) rest after with
          | mk others last =>
              simp only [later] at done
              cases done
              obtain ⟨quiet, each⟩ := ih (nr + 1) after others later
              obtain ⟨still, first⟩ := resolve_statement_reports table bpfLen statement shown _ after
                one quiet
              refine ⟨still, fun other member => ?_⟩
              rcases List.mem_cons.mp member with rfl | there
              · exact first
              · exact each other there

theorem resolver_run (table : LabelTable) (code resolved : List Statement)
    (silent : resolver table code = .ok (resolved, [])) :
    code.length % 2 ^ 16 ≠ 0 ∧
      (resolveFrom table (code.length % 2 ^ 16) 1 code .start).1 = resolved ∧
      (resolveFrom table (code.length % 2 ^ 16) 1 code .start).2.reports = [] ∧
      ∀ last, resolved.getLast? = some last → ∃ line, last.line = .return_ line := by
  unfold resolver at silent
  dsimp only at silent
  split at silent
  · cases silent
  · next nonempty =>
      refine ⟨nonempty, ?_⟩
      generalize resolveFrom table (code.length % 2 ^ 16) 1 code .start = run at silent ⊢
      split at silent
      · next none =>
          simp only [Except.ok.injEq, Prod.mk.injEq] at silent
          obtain ⟨rfl, quiet⟩ := silent
          exact ⟨rfl, quiet, fun last found => by rw [none] at found; cases found⟩
      · next last found =>
          split at silent
          · next line same =>
              simp only [Except.ok.injEq, Prod.mk.injEq] at silent
              obtain ⟨rfl, quiet⟩ := silent
              refine ⟨rfl, quiet, fun other there => ?_⟩
              rw [found] at there
              cases there
              exact ⟨line, same⟩
          · simp only [Except.ok.injEq, Prod.mk.injEq] at silent
            exact absurd silent.2 (report_reports _ _ _)

section Programs

variable {lib : Libseccomp} {localArch : Word} (program : TextProgram lib localArch)

theorem program_text : ParsedText program.lines.length program.parsed :=
  parser_text lib localArch program.lines program.parsed program.parses

theorem program_short : program.parsed.text.length < 2 ^ 15 := by
  have few := (program_text program).length
  have lines := source_lines_length program.file program.lines program.read
  simp only [bpfMaxInsns] at lines
  omega

theorem count_code_le (text : List Statement) (i : Nat) :
    countCode (text.take i) ≤ countCode text := by
  exact ((List.take_sublist i text).filter _).length_le

theorem count_code_short (i : Nat) : countCode (program.parsed.text.take i) < 2 ^ 15 := by
  have short := program_short program
  have some_ := count_code_le program.parsed.text i
  have all : countCode program.parsed.text ≤ program.parsed.text.length := List.length_filter_le _ _
  omega

/-- Every statement handed to the resolver is a proper line that carries its number. -/
theorem program_handed (i : Nat) (statement : Statement)
    (found : (codePtrs program.parsed.text)[i]? = some statement) :
    statement.codeNr = i + 1 ∧ statement.line.Shaped ∧ i < bpfMaxInsns := by
  have text := program_text program
  obtain ⟨at_, here, counts, count⟩ := count_at_code _ i statement found
  have number := text.codeNr at_ statement here
  have short := count_code_short program at_
  rw [count] at number short
  have silent := (resolver_run _ _ _ program.resolves).2.2.1
  have noError := (resolve_from_errors _ _ _ _ _ _ _ rfl silent).2 statement
    (List.mem_of_getElem? found)
  rcases text.line statement (List.mem_of_getElem? here) with empty | ⟨error, same⟩ | ⟨shaped, few⟩
  · exact absurd empty counts
  · exact absurd same (noError error)
  · exact ⟨by omega, shaped, by omega⟩

theorem program_few : 1 ≤ (codePtrs program.parsed.text).length ∧
    (codePtrs program.parsed.text).length ≤ bpfMaxInsns := by
  have nonzero := (resolver_run _ _ _ program.resolves).1
  have positive : 0 < (codePtrs program.parsed.text).length := by
    rcases Nat.eq_zero_or_pos (codePtrs program.parsed.text).length with none | some_
    · exact absurd (by simp [none]) nonzero
    · exact some_
  obtain ⟨last, found⟩ : ∃ last, (codePtrs program.parsed.text)[
      (codePtrs program.parsed.text).length - 1]? = some last :=
    ⟨_, List.getElem?_eq_getElem (by omega)⟩
  have few := (program_handed program _ last found).2.2
  omega

/-- What `asm_statement` makes of the program, and what the resolver knew about it. -/
structure Assembles (insns : List Insn) : Prop where
  length : insns.length = (codePtrs program.parsed.text).length
  kept : program.code.length = (codePtrs program.parsed.text).length
  assembled : assembled program.code = some (insns.map Insn.filter)
  each : ∀ (i : Nat) statement, (codePtrs program.parsed.text)[i]? = some statement →
    ∃ shown insn, program.code[i]? = some shown ∧ insns[i]? = some insn ∧
      Resolves program.parsed.table insns.length statement shown insn
  clean : MergedClean (insns.map Insn.filter)

end Programs

theorem insn_at_map (insns : List Insn) (pc : Nat) : insnAt (insns.map Insn.filter) pc = insns[pc]? := by
  unfold insnAt
  rw [List.getElem?_map]
  cases insns[pc]? with
  | none => rfl
  | some insn => exact insn_of_filter insn

theorem assembled_of_each (code : List Statement) (insns : List Insn)
    (length : code.length = insns.length)
    (each : ∀ (i : Nat) statement insn, code[i]? = some statement → insns[i]? = some insn →
      statement.line.Stands insn) :
    assembled code = some (insns.map Insn.filter) := by
  induction code generalizing insns with
  | nil =>
      cases insns with
      | nil => rfl
      | cons insn rest => simp at length
  | cons statement code ih =>
      cases insns with
      | nil => simp at length
      | cons insn rest =>
          have first := asm_stands statement insn (each 0 statement insn rfl rfl)
          have later := ih rest (by simpa using length)
            (fun i other one here there => each (i + 1) other one (by simpa using here)
              (by simpa using there))
          simp only [assembled, first, later, List.map_cons]

theorem return_stands (line : Line) (insn : Insn) (stands : line.Stands insn)
    (returns : ∃ l, line = .return_ l) : insn = .retA ∨ ∃ k, insn = .retK k := by
  obtain ⟨l, rfl⟩ := returns
  cases (show l.Stands insn from stands) with
  | a type => exact Or.inl rfl
  | number type => exact Or.inr ⟨_, rfl⟩
  | action value type => exact Or.inr ⟨_, rfl⟩

theorem program_assembles {lib : Libseccomp} {localArch : Word}
    (program : TextProgram lib localArch) : ∃ insns, Assembles program insns := by
  obtain ⟨some_, few⟩ := program_few program
  obtain ⟨_, resolved, silent, last⟩ := resolver_run _ _ _ program.resolves
  have width : (codePtrs program.parsed.text).length % 2 ^ 16 =
      (codePtrs program.parsed.text).length := by
    simp only [bpfMaxInsns] at few
    omega
  rw [width] at resolved silent
  -- a resolver that reported nothing gives an instruction for each statement
  obtain ⟨_, insns, all⟩ := resolve_from_silent program.parsed.table _ few
    (find_key_fits _ _ (program_text program)) (codePtrs program.parsed.text) 0 (by omega)
    (fun i statement found => by
      obtain ⟨number, shaped, _⟩ := program_handed program i statement found
      exact { codeNr := by rw [number, Nat.zero_add], line := Or.inr shaped })
    .start _ _ rfl silent
  rw [resolved] at all
  have kept : program.code.length = (codePtrs program.parsed.text).length := all.kept
  have stands (i : Nat) (statement : Statement) (insn : Insn)
      (here : program.code[i]? = some statement) (there : insns[i]? = some insn) :
      statement.line.Stands insn := by
    have inside : i < (codePtrs program.parsed.text).length := by
      rw [← all.length]
      exact (List.getElem?_eq_some_iff.mp there).1
    obtain ⟨shown, other, shownHere, otherHere, resolves⟩ :=
      all.each i _ (List.getElem?_eq_getElem inside)
    rw [here] at shownHere
    rw [there] at otherHere
    cases shownHere
    cases otherHere
    exact resolves.stands
  have nonempty : insns.map Insn.filter ≠ [] := by
    intro none
    have length := congrArg List.length none
    simp only [List.length_map, List.length_nil] at length
    have same := all.length
    omega
  refine ⟨insns,
    { length := all.length
      kept
      assembled := assembled_of_each program.code insns (by rw [kept, all.length]) stands
      each := fun i statement found => by
        rw [all.length]
        exact all.each i statement found
      clean := ?_ }⟩
  -- check_prog: each instruction passes with the masks, and the last one returns
  refine (check_prog_clean_iff merged _ nonempty).mpr ⟨fun pc inside => ?_, ?_⟩
  · have inside : pc < insns.length := by simpa using inside
    have here : insns[pc]? = some insns[pc] := List.getElem?_eq_getElem inside
    have admissible := all.admissible (insns.map Insn.filter)
      (fun i insn found => by rw [Nat.zero_add, insn_at_map]; exact found)
      ⟨rfl, fun _ => rfl⟩ pc _ here
    rw [Nat.zero_add, ← all.length] at admissible
    exact ⟨insns[pc], by rw [insn_at_map]; exact here, by rw [List.length_map]; exact admissible⟩
  · have lastInside : insns.length - 1 < insns.length := by
      have same := all.length
      omega
    have code : program.code.length - 1 < program.code.length := by omega
    have there : program.code.getLast? = some program.code[program.code.length - 1] := by
      rw [List.getLast?_eq_getElem?, List.getElem?_eq_getElem code]
    have returns := last _ there
    have sameLength : program.code.length - 1 = insns.length - 1 := by rw [kept, all.length]
    refine ⟨insns[insns.length - 1], ?_, ?_⟩
    · rw [List.length_map, insn_at_map]
      exact List.getElem?_eq_getElem lastInside
    · refine return_stands _ _ (stands (insns.length - 1) _ _ ?_
        (List.getElem?_eq_getElem lastInside)) returns
      rw [← sameLength]
      exact List.getElem?_eq_getElem code

/-- The filters of every accepted source pass `check_prog`, and also the kernel's
check, which intersects the masks at every jump target. -/
theorem assembled_accepted {lib : Libseccomp} {localArch : Word}
    (program : TextProgram lib localArch) :
    ∃ prog, assembled program.code = some prog ∧ 1 ≤ prog.length ∧ prog.length ≤ bpfMaxInsns ∧
      checkProg prog = .ok false ∧ CheckClean prog ∧ MergedClean prog := by
  obtain ⟨insns, all⟩ := program_assembles program
  obtain ⟨some_, few⟩ := program_few program
  have nonempty : insns.map Insn.filter ≠ [] := by
    intro none
    have length := congrArg List.length none
    simp only [List.length_map, List.length_nil] at length
    have same := all.length
    omega
  have clean := merged_clean_check _ nonempty all.clean
  refine ⟨insns.map Insn.filter, all.assembled, ?_, ?_, ?_, clean, all.clean⟩
  · rw [List.length_map, all.length]
    exact some_
  · rw [List.length_map, all.length]
    exact few
  · have fatal : (checkProgState (insns.map Insn.filter)).fatalCount = 0 := clean.1
    have error : (checkProgState (insns.map Insn.filter)).errorCount = 0 := clean.2
    simp [checkProg, fatal, error]

def archGuard : Text :=
  "$A = $arch\nif ($A != x86_64) goto bad\nreturn ALLOW\nbad: return ERRNO(5)\n".toList

theorem arch_guard_read : (readProgram namelessLib archX8664 archGuard).isSome = true := by
  decide +kernel

def archGuardProgram : TextProgram namelessLib archX8664 :=
  (readProgram namelessLib archX8664 archGuard).get arch_guard_read

def archGuardFilters : List Filter :=
  [⟨0x20, 0, 0, 4⟩, ⟨0x15, 0, 1, 0xC000003E⟩, ⟨0x06, 0, 0, 0x7fff0000⟩, ⟨0x06, 0, 0, 0x00050005⟩]

theorem arch_guard_assembled : assembled archGuardProgram.code = some archGuardFilters := by
  decide +kernel

theorem assembled_accepted_arch_guard :
    checkProg archGuardFilters = .ok false ∧ CheckClean archGuardFilters ∧
      MergedClean archGuardFilters := by
  obtain ⟨prog, same, _, _, checked, clean, merged⟩ := assembled_accepted archGuardProgram
  rw [arch_guard_assembled] at same
  cases same
  exact ⟨checked, clean, merged⟩

end Ceccomp
