import Ceccomp.Text.Printout
import Ceccomp.Text.Settled

/-!
From the text of `print_prog` back to the filters: `asm` takes the text of an accepted
program exactly if the kernel's check takes the program.
-/

namespace Ceccomp

theorem remarks_no_labels (comments : List Text) (codeNr : Nat) (listing : List ListedLine) :
    listedLabels codeNr (comments.map remarkLine ++ listing) = listedLabels codeNr listing := by
  induction comments with
  | nil => rfl
  | cons comment rest ih => exact ih

section Parses

variable {lib : Libseccomp} {localArch : Word} {prog : List Filter} {listing : List ListedLine}
  (listed : ProgramListed lib localArch prog listing) {front back : List Text}

include listed

theorem framed_labels :
    LabelsLead (listedLabels 0 (framedListing front back listing)) prog.length := by
  intro nr some_ inside
  obtain ⟨pc, rfl⟩ := Nat.exists_eq_succ_of_ne_zero (Nat.ne_of_gt some_)
  have own := listed_label listing 0 pc
    (by
      intro line member
      obtain ⟨_, _, own⟩ := listed_member listed line member
      exact own.proper)
    (by
      intro j line there
      have few : j < prog.length := by
        rw [← listed.length]
        exact (List.getElem?_eq_some_iff.mp there).1
      obtain ⟨insn, other, _, here, own⟩ := listed.each j prog[j] (List.getElem?_eq_getElem few)
      rw [there] at here
      cases here
      rw [own.key, Nat.zero_add])
    (by rw [listed.length]; exact inside) (back.map remarkLine)
  rw [Nat.zero_add] at own
  rw [framedListing, remarks_no_labels]
  exact own

theorem framed_parses (remarks : Remarks front back) (few : prog.length ≤ bpfMaxInsns) : ∃ parsed,
    parser lib localArch ((framedListing front back listing).map ListedLine.raw) =
        some (.ok parsed) ∧
      CodeRead 0 listing (codePtrs parsed.text) ∧ LabelsLead parsed.table prog.length := by
  have code := framed_code listed front back
  obtain ⟨parsed, parses, read, table⟩ := listing_parsed lib localArch
    (framedListing front back listing)
    (fun line member => (framed_member listed remarks line member).1)
    (by rw [code, listed.length]; exact few) (framed_keys listed front back)
  rw [code] at read
  exact ⟨parsed, parses, read, table ▸ framed_labels listed⟩

end Parses

theorem stands_unique (line : Line) (first second : Insn) (one : line.Stands first)
    (other : line.Stands second) : first = second := by
  have filters : some first.filter = some second.filter :=
    (asm_stands { Statement.zero with line } first one).symm.trans
      (asm_stands { Statement.zero with line } second other)
  have same := congrArg Filter.insn? (Option.some.inj filters)
  rw [insn_of_filter, insn_of_filter] at same
  exact Option.some.inj same

theorem shown_flow (insn : Insn) (pc : Nat) (masks : Masks) :
    insn.shown.flow pc masks = insn.flow pc masks := by
  cases insn <;> rfl

theorem admissible_or_load (pc flen : Nat) (mask : BitVec 16) (insn : Insn)
    (admissible : insn.Admissible pc flen mask) :
    (∀ other, insn.Admissible pc flen other) ∨ ∃ dst k, insn = .ldMem dst k := by
  cases insn with
  | ldMem dst k => exact Or.inr ⟨dst, k, rfl⟩
  | alu op src => cases op <;> cases src <;> exact Or.inl fun _ => admissible
  | ldAbs _ | ldLen _ | ldImm _ _ | st _ _ | neg | tax | txa | ja _ | jmp _ _ _ _ | retA | retK _ =>
      exact Or.inl fun _ => admissible

/-- The resolver at one statement of a printed program. -/
structure StatementSettles (bpfLen pc : Nat) (insn : Insn) (resolved : Statement)
    (state after : ResolveState) : Prop where
  silent : after.reports = [] ↔
    state.reports = [] ∧ insn.Admissible pc bpfLen state.memValid
  stands : after.reports = [] → resolved.line.Stands insn.shown
  matched : after.reports = [] → ∀ masks, MasksMatch state masks →
    MasksMatch after (insn.flow pc masks)

section Steps

variable (table : LabelTable) (bpfLen : Nat) (leads : LabelsLead table bpfLen)
  (small : bpfLen ≤ bpfMaxInsns) (fits : ∀ key, findKey table key < 65536)

include leads small fits

theorem statement_step (pc : Nat) (inside : pc < bpfLen) (insn : Insn) (known : BitVec 16)
    (checked : insn.Admissible pc bpfLen known) (statement resolved : Statement)
    (restated : insn.line.Restated (pc + 1) statement.line) (handed : Handed bpfLen pc statement)
    (state after : ResolveState)
    (done : resolveStatement table bpfLen statement state = (resolved, after)) :
    StatementSettles bpfLen pc insn resolved state after := by
  have settles (admissible : insn.Admissible pc bpfLen state.memValid) :
      after.reports = state.reports ∧ resolved.line.Stands insn.shown := by
    obtain ⟨_, _, ran, reports, stands⟩ := statement_settles table bpfLen pc leads small insn
      statement handed.codeNr restated state admissible
    rw [done] at ran
    cases ran
    exact ⟨reports, stands⟩
  have silently (silent : after.reports = []) :=
    resolve_statement_silent table bpfLen pc small inside fits statement resolved state after handed
      done silent
  have admits (silent : after.reports = []) : insn.Admissible pc bpfLen state.memValid := by
    rcases admissible_or_load pc bpfLen known insn checked with always | ⟨dst, k, rfl⟩
    · exact always state.memValid
    · -- the resolver asks for the slot of the very instruction
      obtain ⟨_, other, resolves, step⟩ := silently silent
      have stands : resolved.line.Stands (.ldMem dst k) := by
        cases line : statement.line with
        | assign again =>
            rw [line] at restated
            have kept : resolved = statement := by
              unfold resolveStatement at done
              rw [line] at done
              dsimp only at done
              split at done <;> exact (congrArg Prod.fst done).symm
            rw [kept, line]
            cases restated with
            | assign _ _ left operator right =>
                exact assign_stands_same _ again left operator right _ (.ldMem dst rfl rfl rfl)
        | jump _ | return_ _ | empty | eof | error _ => rw [line] at restated; cases restated
      rw [← stands_unique resolved.line other _ resolves.stands stands]
      exact step.admissible
  constructor
  · constructor
    · intro silent
      exact ⟨(silently silent).1, admits silent⟩
    · rintro ⟨quiet, admissible⟩
      rw [(settles admissible).1, quiet]
  · intro silent
    exact (settles (admits silent)).2
  · intro silent masks matched
    obtain ⟨_, other, resolves, step⟩ := silently silent
    have same := stands_unique resolved.line other insn.shown resolves.stands
      (settles (admits silent)).2
    rw [← shown_flow, ← same]
    exact step.matched masks matched

theorem statements_settle (prog : List Filter) (length : prog.length = bpfLen)
    (known : Nat → BitVec 16)
    (checked : ∀ pc insn, insnAt prog pc = some insn → insn.Admissible pc bpfLen (known pc))
    (code : List Statement) (pc : Nat) (until_ : pc + code.length = bpfLen)
    (read : ∀ (i : Nat) statement, code[i]? = some statement → ∃ insn,
      insnAt prog (pc + i) = some insn ∧ insn.line.Restated (pc + i + 1) statement.line ∧
        Handed bpfLen (pc + i) statement)
    (state final : ResolveState) (resolved : List Statement)
    (matched : MasksMatch state (masksBefore merged prog pc))
    (done : resolveFrom table bpfLen (pc + 1) code state = (resolved, final)) :
    (final.reports = [] ↔ state.reports = [] ∧ ∀ i < code.length, Passes merged prog (pc + i)) ∧
      (final.reports = [] → resolved.length = code.length ∧ ∀ (i : Nat) insn shown,
        insnAt prog (pc + i) = some insn → resolved[i]? = some shown →
          shown.line.Stands insn.shown) := by
  induction code generalizing pc state resolved with
  | nil =>
      cases done
      simp
  | cons statement rest ih =>
      rw [List.length_cons] at until_
      obtain ⟨insn, here, restated, handed⟩ := read 0 statement rfl
      rw [Nat.add_zero] at here restated handed
      simp only [resolveFrom] at done
      cases one : resolveStatement table bpfLen statement
          { state with memValid := state.memValid &&& state.masks (pc + 1) } with
      | mk shown after =>
          cases later : resolveFrom table bpfLen (pc + 1 + 1) rest after with
          | mk others last =>
              simp only [one, later] at done
              cases done
              have entered := match_entered state _ pc matched
              have step := statement_step table bpfLen leads small fits pc (by omega) insn (known pc)
                (checked pc insn here) statement shown restated handed _ after one
              have quiet (silent : final.reports = []) : after.reports = [] :=
                (resolve_from_errors table bpfLen _ rest after final others later silent).1
              have passes : Passes merged prog pc ↔ insn.Admissible pc bpfLen
                  (state.memValid &&& state.masks (pc + 1)) := by
                have masks : (masksAt merged prog pc).memValid =
                    state.memValid &&& state.masks (pc + 1) := entered.1.symm
                simp [Passes, here, masks, length]
              -- behind a statement that reports nothing the masks still agree
              have tail (silent : after.reports = []) := ih (pc + 1) (by omega)
                (by
                  intro i other found
                  have there := read (i + 1) other (by simpa using found)
                  rwa [show pc + (i + 1) = pc + 1 + i by omega] at there) after others
                (by
                  simp only [masksBefore, here]
                  exact step.matched silent _ entered) later
              constructor
              · constructor
                · intro silent
                  have still := step.silent.mp (quiet silent)
                  refine ⟨still.1, ?_⟩
                  intro i few
                  cases i with
                  | zero => exact passes.mpr still.2
                  | succ i =>
                      have behind := ((tail (quiet silent)).1.mp silent).2 i
                        (Nat.lt_of_succ_lt_succ few)
                      rwa [Nat.add_right_comm, Nat.add_assoc] at behind
                · rintro ⟨still, each⟩
                  have first := each 0 (Nat.succ_pos _)
                  have silent := step.silent.mpr ⟨still, passes.mp first⟩
                  refine (tail silent).1.mpr ⟨silent, ?_⟩
                  intro i few
                  have behind := each (i + 1) (Nat.succ_lt_succ few)
                  rwa [← Nat.add_assoc, Nat.add_right_comm] at behind
              · intro silent
                obtain ⟨same, each⟩ := (tail (quiet silent)).2 silent
                refine ⟨by simp [same], ?_⟩
                intro i other found there here_
                cases i with
                | zero =>
                    cases here_
                    rw [Nat.add_zero, here] at there
                    cases there
                    exact step.stands (quiet silent)
                | succ i =>
                    rw [← Nat.add_assoc, Nat.add_right_comm] at there
                    exact each i other found there (by simpa using here_)

end Steps

theorem assembled_shown (code : List Statement) (prog : List Filter)
    (length : code.length = prog.length)
    (each : ∀ (i : Nat) statement (f : Filter), code[i]? = some statement → prog[i]? = some f →
      ∃ insn, f.insn? = some insn ∧ statement.line.Stands insn.shown) :
    assembled code = some (prog.map Filter.shown) := by
  induction code generalizing prog with
  | nil =>
      cases prog with
      | nil => rfl
      | cons f rest => cases length
  | cons statement code ih =>
      cases prog with
      | nil => cases length
      | cons f rest =>
          obtain ⟨insn, decodes, stands⟩ := each 0 statement f rfl rfl
          have first := asm_stands statement insn.shown stands
          have later := ih rest (by simpa using length)
            (fun i other one here there => each (i + 1) other one (by simpa using here)
              (by simpa using there))
          simp [assembled, first, later, Filter.shown, decodes]

theorem stands_return (line : Line) (insn : Insn) (returns : insn = .retA ∨ ∃ k, insn = .retK k)
    (stands : line.Stands insn.shown) : ∃ l, line = .return_ l := by
  have shown : insn.shown = .retA ∨ ∃ k, insn.shown = .retK k := by
    rcases returns with rfl | ⟨k, rfl⟩
    · exact Or.inl rfl
    · exact Or.inr ⟨shownReturn k, rfl⟩
  cases line with
  | return_ l => exact ⟨l, rfl⟩
  | assign l =>
      have stands : l.Stands insn.shown := stands
      rcases shown with same | ⟨k, same⟩ <;> rw [same] at stands <;> cases stands
  | jump l =>
      have stands : l.Stands insn.shown := stands
      rcases shown with same | ⟨k, same⟩ <;> rw [same] at stands <;> cases stands
  | empty | eof | error l => exact stands.elim

section Programs

variable {lib : Libseccomp} {localArch : Word} {prog : List Filter} {listing : List ListedLine}

theorem printed_resolves (accepted : Accepted16 prog) (few : prog.length ≤ bpfMaxInsns)
    (listed : ProgramListed lib localArch prog listing) (lineCount : Nat) (parsed : Parsed)
    (text : ParsedText lineCount parsed) (read : CodeRead 0 listing (codePtrs parsed.text))
    (leads : LabelsLead parsed.table prog.length) :
    ((∃ resolved, resolver parsed.table (codePtrs parsed.text) = .ok (resolved, [])) ↔
      MergedClean prog) ∧
    ∀ resolved, resolver parsed.table (codePtrs parsed.text) = .ok (resolved, []) →
      assembled resolved = some (prog.map Filter.shown) := by
  let code := codePtrs parsed.text
  have length : code.length = prog.length := (code_read_length _ _ _ read).trans listed.length
  obtain ⟨passes, ends⟩ := check_clean_passes prog accepted.nonempty accepted.clean
  have some_ : 0 < prog.length := List.length_pos_iff.mpr accepted.nonempty
  have width : code.length % 2 ^ 16 = prog.length := by
    have small := accepted.small
    omega
  have each (i : Nat) (statement : Statement) (there : code[i]? = some statement) : ∃ insn,
      insnAt prog (0 + i) = some insn ∧ insn.line.Restated (0 + i + 1) statement.line ∧
        Handed prog.length (0 + i) statement := by
    have inside : i < prog.length := by
      rw [← length]
      exact (List.getElem?_eq_some_iff.mp there).1
    obtain ⟨insn, line, decodes, here, own⟩ := listed.each i prog[i] (List.getElem?_eq_getElem inside)
    obtain ⟨restated, number⟩ := code_read_each 0 listing code read i line statement here there
    rw [Nat.zero_add] at number ⊢
    refine ⟨insn, ?_, own.meaning statement.line restated, number, ?_⟩
    · rw [insnAt, List.getElem?_eq_getElem inside]
      exact decodes
    · have member : statement ∈ parsed.text := List.mem_of_mem_filter (List.mem_of_getElem? there)
      rcases text.line statement member with empty | error | ⟨shaped, _⟩
      · exact absurd ((restated_empty _ _ _ restated).mp empty) own.proper
      · exact Or.inl error
      · exact Or.inr shaped
  -- one run of the resolver, which is silent exactly if the merged check is
  cases run : resolveFrom parsed.table prog.length 1 code .start with
  | mk resolved final =>
      obtain ⟨silent, stands⟩ := statements_settle parsed.table prog.length leads few
        (find_key_fits lineCount parsed text) prog rfl (fun pc => (masksAt carried prog pc).memValid)
        (by
          intro pc insn here
          have inside : pc < prog.length := by
            by_contra outside
            have none_ : prog[pc]? = none := List.getElem?_eq_none_iff.mpr (Nat.le_of_not_lt outside)
            simp [insnAt, none_] at here
          obtain ⟨other, found, admissible⟩ := passes pc inside
          rw [here] at found
          cases found
          exact admissible)
        code 0 (by rw [Nat.zero_add]; exact length) each .start final resolved ⟨rfl, fun _ => rfl⟩ run
      have clean : MergedClean prog ↔ final.reports = [] := by
        refine (check_prog_clean_iff merged prog accepted.nonempty).trans ?_
        rw [silent, length]
        simp [ends, ResolveState.start]
      -- so the report for a program that does not end with a return stays out as well
      have returns (quiet : final.reports = []) :
          ∃ last line, resolved.getLast? = some last ∧ last.line = .return_ line := by
        obtain ⟨same, stands⟩ := stands quiet
        rw [length] at same
        have inside : prog.length - 1 < resolved.length := by omega
        obtain ⟨insn, here, ret⟩ := ends
        obtain ⟨line, found⟩ := stands_return _ insn ret
          (stands (prog.length - 1) insn _ (by rwa [Nat.zero_add]) (List.getElem?_eq_getElem inside))
        exact ⟨_, line, by rw [List.getLast?_eq_getElem?, same, List.getElem?_eq_getElem inside], found⟩
      have unfolded : final.reports = [] →
          resolver parsed.table code = .ok (resolved, final.reports) := by
        intro quiet
        obtain ⟨last, line, found, same⟩ := returns quiet
        unfold resolver
        dsimp only
        rw [width, if_neg (Nat.ne_of_gt some_), run]
        dsimp only
        rw [found]
        dsimp only
        rw [same]
      have agrees (other : List Statement) (done : resolver parsed.table code = .ok (other, [])) :
          final.reports = [] ∧ other = resolved := by
        obtain ⟨_, same, quiet, _⟩ := resolver_run parsed.table code other done
        rw [width, run] at same quiet
        exact ⟨quiet, same.symm⟩
      constructor
      · constructor
        · rintro ⟨other, done⟩
          exact clean.mpr (agrees other done).1
        · intro merges
          have quiet := clean.mp merges
          exact ⟨resolved, by rw [unfolded quiet, quiet]⟩
      · intro other done
        obtain ⟨quiet, rfl⟩ := agrees other done
        obtain ⟨same, stands⟩ := stands quiet
        refine assembled_shown _ prog (same.trans length) ?_
        intro i statement f here there
        obtain ⟨insn, _, decodes, _⟩ := listed.each i f there
        have fetched : insnAt prog (0 + i) = some insn := by rw [Nat.zero_add, insnAt, there]; exact decodes
        exact ⟨insn, decodes, stands i insn statement fetched here⟩

end Programs

theorem accepted_printed (lib : Libseccomp) (knows : lib.KnowsArchs)
    (short : lib.ShortNames) (scmpArch : Word) (prog : List Filter) (accepted : Accepted16 prog)
    (few : prog.length ≤ bpfMaxInsns) (kept : NamesKept lib scmpArch prog) (pid : Nat) :
    ∃ listing, printProg lib scmpArch prog pid false =
        .ok (some (unixFile ((printedListing pid listing).map ListedLine.raw))) ∧
      ProgramListed lib scmpArch prog listing := by
  obtain ⟨statements, decodes⟩ := clean_decodes prog accepted.nonempty accepted.clean accepted.small
  obtain ⟨shown, rendered⟩ := accepted_renders lib short scmpArch prog accepted statements decodes
  obtain ⟨length, each⟩ := rendered_shown lib scmpArch short knows _ prog few accepted
    statements shown decodes kept rendered
  obtain ⟨listing, printed, listed⟩ := shown_listed lib scmpArch prog shown accepted.small length
    (by
      intro pc f here
      have inside : pc < prog.length := (List.getElem?_eq_some_iff.mp here).1
      obtain ⟨insn, found, _⟩ := accepted16_insn accepted pc inside
      rw [insnAt, here] at found
      exact ⟨insn, found⟩) each
  refine ⟨listing, ?_, listed⟩
  unfold printProg
  rw [if_neg accepted.nonempty, decodes.decoded]
  simp [Except.map, rendered, printed, ← printed_text]

/-- What the text of a program goes through when it is read again. -/
structure ReadAgain (lib : Libseccomp) (localArch : Word) (prog : List Filter) (file : Text)
    (parsed : Parsed) : Prop where
  read : ∃ lines, sourceLines file = .ok lines ∧ parser lib localArch lines = some (.ok parsed)
  resolves : (∃ resolved, resolver parsed.table (codePtrs parsed.text) = .ok (resolved, [])) ↔
    MergedClean prog
  assembles : ∀ resolved, resolver parsed.table (codePtrs parsed.text) = .ok (resolved, []) →
    assembled resolved = some (prog.map Filter.shown)

theorem listed_reads_again {lib : Libseccomp} {localArch : Word} {prog : List Filter}
    {listing : List ListedLine} (accepted : Accepted16 prog) (few : prog.length ≤ bpfMaxInsns)
    (listed : ProgramListed lib localArch prog listing) {front back : List Text}
    (remarks : Remarks front back) :
    ∃ parsed, ReadAgain lib localArch prog
      (unixFile ((framedListing front back listing).map ListedLine.raw)) parsed := by
  obtain ⟨parsed, parses, code, leads⟩ := framed_parses listed remarks few
  have text := parser_text lib localArch _ parsed parses
  obtain ⟨resolves, assembles⟩ := printed_resolves accepted few listed _ parsed text code leads
  have source := framed_source listed few remarks accepted.nonempty
  exact ⟨parsed, ⟨_, source, parses⟩, resolves, assembles⟩

theorem accepted_reads_again (lib : Libseccomp) (knows : lib.KnowsArchs)
    (short : lib.ShortNames) (scmpArch : Word) (prog : List Filter) (nonempty : prog ≠ [])
    (few : prog.length ≤ bpfMaxInsns) (clean : CheckClean prog)
    (kept : NamesKept lib scmpArch prog) (pid : Nat) :
    ∃ file parsed, printProg lib scmpArch prog pid false = .ok (some file) ∧
      ReadAgain lib scmpArch prog file parsed := by
  have accepted : Accepted16 prog :=
    { nonempty, clean, small := Nat.lt_of_le_of_lt few (by decide) }
  obtain ⟨listing, printed, listed⟩ :=
    accepted_printed lib knows short scmpArch prog accepted few kept pid
  obtain ⟨parsed, again⟩ := listed_reads_again accepted few listed (print_remarks pid)
  exact ⟨_, parsed, printed, again⟩

theorem again_assembles {lib : Libseccomp} {localArch : Word} {prog : List Filter} {file : Text}
    {parsed : Parsed} (again : ReadAgain lib localArch prog file parsed)
    (program : TextProgram lib localArch) (same : program.file = file) :
    MergedClean prog ∧ assembled program.code = some (prog.map Filter.shown) := by
  obtain ⟨lines, read, parses⟩ := again.read
  have lines_ : program.lines = lines := by
    have own := program.read
    rw [same, read] at own
    exact (Except.ok.inj own).symm
  have parsed_ : program.parsed = parsed := by
    have own := program.parses
    rw [lines_, parses] at own
    exact (Except.ok.inj (Option.some.inj own)).symm
  have done := program.resolves
  rw [parsed_] at done
  exact ⟨again.resolves.mp ⟨program.code, done⟩, again.assembles program.code done⟩

theorem again_accepted {lib : Libseccomp} {localArch : Word} {prog : List Filter} {file : Text}
    {parsed : Parsed} (again : ReadAgain lib localArch prog file parsed) (merges : MergedClean prog) :
    ∃ program : TextProgram lib localArch, program.file = file := by
  obtain ⟨lines, read, parses⟩ := again.read
  obtain ⟨resolved, done⟩ := again.resolves.mpr merges
  exact ⟨{ file, lines, parsed, code := resolved, read, parses, resolves := done }, rfl⟩

/-- The text of `disasm` for a program that `check_prog` accepts is a source, and `asm`
makes the same filters of it again, exactly if the program also passes when the masks of
all incoming jumps are intersected. Only the data of a `return` whose action has none, and
fields that mean nothing, are not in the text. -/
theorem disassembly_reassembles (lib : Libseccomp) (knows : lib.KnowsArchs)
    (short : lib.ShortNames) (scmpArch : Word) (prog : List Filter)
    (nonempty : prog ≠ []) (few : prog.length ≤ bpfMaxInsns) (clean : CheckClean prog)
    (kept : NamesKept lib scmpArch prog) (pid : Nat) :
    ∃ text, printProg lib scmpArch prog pid false = .ok (some text) ∧
      ((∃ program : TextProgram lib scmpArch, program.file = text) ↔ MergedClean prog) ∧
      ∀ program : TextProgram lib scmpArch, program.file = text →
        assembled program.code = some (prog.map Filter.shown) := by
  obtain ⟨text, parsed, printed, again⟩ := accepted_reads_again lib knows short scmpArch prog
    nonempty few clean kept pid
  refine ⟨text, printed, ⟨?_, again_accepted again⟩, ?_⟩
  · rintro ⟨program, same⟩
    exact (again_assembles again program same).1
  · intro program same
    exact (again_assembles again program same).2

/-- The decoded statements as text, before `render`, each behind its label and the fields of
its filter. -/
def decodedText (prog : List Filter) : Option Text :=
  match decodeFilters prog false with
  | .ok (some statements, _) => printFrom 1 prog statements.tail
  | _ => none

theorem decoded_reads_again (lib : Libseccomp) (localArch : Word) (prog : List Filter)
    (nonempty : prog ≠ []) (few : prog.length ≤ bpfMaxInsns) (clean : CheckClean prog) :
    ∃ text parsed, decodedText prog = some text ∧ ReadAgain lib localArch prog text parsed := by
  have accepted : Accepted16 prog :=
    { nonempty, clean, small := Nat.lt_of_le_of_lt few (by decide) }
  obtain ⟨statements, decodes⟩ := clean_decodes prog nonempty clean accepted.small
  have valid (pc : Nat) (f : Filter) (here : prog[pc]? = some f) : ∃ insn, f.insn? = some insn := by
    have inside : pc < prog.length := (List.getElem?_eq_some_iff.mp here).1
    obtain ⟨insn, found, _⟩ := accepted16_insn accepted pc inside
    rw [insnAt, here] at found
    exact ⟨insn, found⟩
  obtain ⟨listing, printed, listed⟩ := shown_listed lib localArch prog statements accepted.small
    decodes.length valid (by
      intro pc insn here
      have inside : pc < prog.length := by
        by_contra outside
        have none_ : prog[pc]? = none := List.getElem?_eq_none_iff.mpr (Nat.le_of_not_lt outside)
        simp [insnAt, none_] at here
      have small : pc + 1 < 2 ^ 16 := by
        simp only [bpfMaxInsns] at few
        omega
      exact ⟨_, decodes.each pc insn here, statement_untouched lib localArch pc small insn⟩)
  have noRemarks : Remarks [] [] := ⟨by simp, by simp⟩
  obtain ⟨parsed, again⟩ := listed_reads_again accepted few listed noRemarks
  refine ⟨_, parsed, ?_, again⟩
  unfold decodedText
  rw [decodes.decoded]
  simpa [framedListing] using printed

/-- What is decoded from an accepted program and printed reassembles to the same filters exactly
when each load comes behind a store on all paths: `resolver` intersects the masks of the jumps
to a statement with `mem_valid`, which `check_filter` forgets. -/
theorem decoded_reassembles_iff (lib : Libseccomp) (localArch : Word) (prog : List Filter)
    (nonempty : prog ≠ []) (few : prog.length ≤ bpfMaxInsns) (clean : CheckClean prog) :
    ∃ text, decodedText prog = some text ∧
      ((∃ program : TextProgram lib localArch, program.file = text ∧
        assembled program.code = some (prog.map Filter.shown)) ↔ LoadsStored prog) := by
  obtain ⟨text, parsed, printed, again⟩ := decoded_reads_again lib localArch prog nonempty few clean
  refine ⟨text, printed, ?_⟩
  rw [← merged_clean_iff prog nonempty clean]
  constructor
  · rintro ⟨program, same, _⟩
    exact (again_assembles again program same).1
  · intro merges
    obtain ⟨program, same⟩ := again_accepted again merges
    exact ⟨program, same, (again_assembles again program same).2⟩

theorem decoded_reassembles_store_load : ∃ text, decodedText storeThenLoad = some text ∧
    ∃ program : TextProgram namelessLib archX8664, program.file = text ∧
      assembled program.code = some (storeThenLoad.map Filter.shown) := by
  have clean : CheckClean storeThenLoad := ⟨by decide, by decide⟩
  obtain ⟨text, printed, reads⟩ := decoded_reassembles_iff namelessLib archX8664 storeThenLoad
    (by decide) (by decide) clean
  have merges : MergedClean storeThenLoad := ⟨by decide, by decide⟩
  exact ⟨text, printed, reads.mpr ((merged_clean_iff _ (by decide) clean).mp merges)⟩

/-- The load behind a jump is decoded and printed, but the resolver does not accept it. -/
theorem load_behind_jump_refused :
    ¬ ∀ (lib : Libseccomp) (localArch : Word) (prog : List Filter), prog ≠ [] →
      prog.length ≤ bpfMaxInsns → CheckClean prog →
      ∃ text, decodedText prog = some text ∧ ∃ program : TextProgram lib localArch,
        program.file = text ∧ assembled program.code = some (prog.map Filter.shown) := by
  intro claim
  have clean : CheckClean loadBehindJump := ⟨by decide, by decide⟩
  obtain ⟨text, printed, program, same, _⟩ :=
    claim namelessLib archX8664 loadBehindJump (by decide) (by decide) clean
  obtain ⟨other, parsed, shown, again⟩ := decoded_reads_again namelessLib archX8664 loadBehindJump
    (by decide) (by decide) clean
  rw [printed] at shown
  cases shown
  have merges := (again_assembles again program same).1
  have stored := (merged_clean_iff _ (by decide) clean).mp merges
  have jump : insnAt loadBehindJump 0 = some (.ja 0) := rfl
  have path : PathTo Insn.followers loadBehindJump 1 [] := .step .first jump List.mem_cons_self
  exact absurd (stored 1 .A 0 rfl [] path) List.not_mem_nil

/-- `$A = $syscall_nr`, then `read` is allowed and everything else kills. -/
def allowRead : List Filter :=
  [⟨0x20, 0, 0, 0⟩, ⟨0x15, 0, 1, 0⟩, ⟨0x06, 0, 0, 0x7fff0000⟩, ⟨0x06, 0, 0, 0⟩]

theorem allow_read_kept : NamesKept readAndSysctl archX8664 allowRead := by
  intro pc op src jt jf here
  have only : src = .k 0 := by
    match pc, here with
    | 1, here => cases here; rfl
    | 0, here | 2, here | 3, here => cases here
    | more + 4, here => cases here
  subst only
  intro _ _ name resolved
  obtain ⟨arch, ⟨_, rfl⟩ | ⟨number, _⟩⟩ := read_and_sysctl_names _ _ name resolved
  · rw [arch]
    refine ⟨Src.noConfusion, Or.inl ⟨?_, by decide⟩⟩
    exact { letter := by decide, inside := by simp [isIdentifier], free := by decide +kernel }
  · exact absurd number (by decide)

theorem read_and_sysctl_short : readAndSysctl.ShortNames := by
  intro arch number name resolved
  obtain ⟨_, ⟨_, rfl⟩ | ⟨_, rfl⟩⟩ := read_and_sysctl_names arch number name resolved
  · decide
  · decide

theorem disassembly_reassembles_read :
    ∃ text, printProg readAndSysctl archX8664 allowRead 4711 false = .ok (some text) ∧
      ∃ program : TextProgram readAndSysctl archX8664, program.file = text ∧
        assembled program.code = some allowRead := by
  obtain ⟨text, printed, reads, assembles⟩ := disassembly_reassembles readAndSysctl
    read_and_sysctl_knows read_and_sysctl_short archX8664 allowRead
    (by decide) (by decide) ⟨by decide, by decide⟩ allow_read_kept 4711
  obtain ⟨program, file⟩ := reads.mpr ⟨by decide, by decide⟩
  exact ⟨text, printed, program, file, assembles program file⟩

section Runs

theorem shown_return_again (k : Word) : shownReturn (shownReturn k) = shownReturn k := by
  unfold shownReturn
  by_cases bare : k &&& seccompRetActionFull ∈ bareActions
  · have again : k &&& seccompRetActionFull &&& seccompRetActionFull =
        k &&& seccompRetActionFull := by
      rw [BitVec.and_assoc, BitVec.and_self]
    simp only [if_pos bare, again]
  · simp only [if_neg bare]

theorem filter_shown_insn (f : Filter) : f.shown.insn? = f.insn?.map Insn.shown := by
  unfold Filter.shown
  cases decoded : f.insn? with
  | none => exact decoded
  | some insn => exact insn_of_filter insn.shown

/-- How a run ends, as far as the text shows it. -/
def BpfEnd.shown : BpfEnd → BpfEnd
  | .ret value => .ret (shownReturn value)
  | .stuck => .stuck

theorem insn_shown_alike (stale : Nat → Word) (data : SeccompData) (pc : Nat) (regs : Regs)
    (insn : Insn) :
    (∃ next, insn.shown.exec stale data pc regs = .go next ∧
      insn.exec stale data pc regs = .go next) ∨
    ∃ answer reply, insn.shown.exec stale data pc regs = .stop answer ∧
      insn.exec stale data pc regs = .stop reply ∧ answer.shown = reply.shown := by
  have same (kept : insn.shown = insn) :
      (∃ next, insn.shown.exec stale data pc regs = .go next ∧
        insn.exec stale data pc regs = .go next) ∨
      ∃ answer reply, insn.shown.exec stale data pc regs = .stop answer ∧
        insn.exec stale data pc regs = .stop reply ∧ answer.shown = reply.shown := by
    rw [kept]
    cases moved : insn.exec stale data pc regs with
    | go next => exact Or.inl ⟨next, rfl, rfl⟩
    | stop answer => exact Or.inr ⟨answer, answer, rfl, rfl, rfl⟩
  cases insn with
  | retK k =>
      refine Or.inr ⟨.ret (shownReturn k), .ret k, rfl, rfl, ?_⟩
      exact congrArg BpfEnd.ret (shown_return_again k)
  | ldAbs _ | ldLen _ | ldImm _ _ | ldMem _ _ | st _ _ | alu _ _ | neg | tax | txa | ja _
  | jmp _ _ _ _ | retA => exact same rfl

theorem shown_runs_alike (stale : Nat → Word) (prog : List Filter) (data : SeccompData) :
    (bpfRun stale (prog.map Filter.shown) data).map shownReturn =
      (bpfRun stale prog data).map shownReturn := by
  have alike (state : BpfState) :
      (∃ next, bpfStep stale (prog.map Filter.shown) data state = .go next ∧
        bpfStep stale prog data state = .go next) ∨
      ∃ answer reply, bpfStep stale (prog.map Filter.shown) data state = .stop answer ∧
        bpfStep stale prog data state = .stop reply ∧ answer.shown = reply.shown := by
    unfold bpfStep
    rw [List.getElem?_map]
    cases prog[state.pc]? with
    | none => exact Or.inr ⟨.stuck, .stuck, rfl, rfl, rfl⟩
    | some f =>
        simp only [Option.map_some, filter_shown_insn]
        cases f.insn? with
        | none => exact Or.inr ⟨.stuck, .stuck, rfl, rfl, rfl⟩
        | some insn => exact insn_shown_alike stale data state.pc state.regs insn
  have results := Machine.result_view BpfEnd.shown _ _ alike prog.length BpfState.initial
  unfold bpfRun
  rw [List.length_map]
  revert results
  generalize Machine.result (bpfStep stale (prog.map Filter.shown) data) prog.length
    BpfState.initial = again
  generalize Machine.result (bpfStep stale prog data) prog.length BpfState.initial = before
  intro results
  rcases again with _ | _ | _ <;> rcases before with _ | _ | _ <;> simp_all [BpfEnd.shown]

end Runs

/-- The filters that `asm` makes of the text of `disasm` pass the kernel's check and decide
every system call as the printed ones do: the same action, and the same data where the
action has any. -/
theorem reassembled_runs_alike (lib : Libseccomp) (knows : lib.KnowsArchs)
    (short : lib.ShortNames) (scmpArch : Word) (prog : List Filter)
    (nonempty : prog ≠ []) (few : prog.length ≤ bpfMaxInsns) (clean : CheckClean prog)
    (kept : NamesKept lib scmpArch prog) (pid : Nat) (program : TextProgram lib scmpArch)
    (printed : printProg lib scmpArch prog pid false = .ok (some program.file)) :
    ∃ again, assembled program.code = some again ∧ MergedClean again ∧
      again.length = prog.length ∧
      ∀ stale data, ∃ value value', bpfRun stale prog data = some value ∧
        bpfRun stale again data = some value' ∧ shownReturn value' = shownReturn value := by
  obtain ⟨text, parsed, shown, reads⟩ := accepted_reads_again lib knows short scmpArch prog
    nonempty few clean kept pid
  have same : program.file = text := by
    rw [printed] at shown
    exact Option.some.inj (Except.ok.inj shown)
  have filters := (again_assembles reads program same).2
  obtain ⟨insns, assembles⟩ := program_assembles program
  have made : insns.map Insn.filter = prog.map Filter.shown := by
    have both := assembles.assembled
    rw [filters] at both
    exact (Option.some.inj both).symm
  refine ⟨prog.map Filter.shown, filters, made ▸ assembles.clean, List.length_map _, ?_⟩
  intro stale data
  obtain ⟨value, ran⟩ := clean_run_returns stale prog data nonempty clean
  have alike := shown_runs_alike stale prog data
  rw [ran, Option.map_some, Option.map_eq_some_iff] at alike
  obtain ⟨value', ranAgain, agree⟩ := alike
  exact ⟨value, value', ran, ranAgain, agree⟩

theorem allow_read_printed : ∃ program : TextProgram readAndSysctl archX8664,
    printProg readAndSysctl archX8664 allowRead 0 false = .ok (some program.file) := by
  obtain ⟨text, parsed, printed, again⟩ := accepted_reads_again readAndSysctl
    read_and_sysctl_knows read_and_sysctl_short archX8664 allowRead (by decide) (by decide)
    ⟨by decide, by decide⟩ allow_read_kept 0
  obtain ⟨lines, read, parses⟩ := again.read
  obtain ⟨resolved, done⟩ := again.resolves.mpr ⟨by decide, by decide⟩
  exact ⟨{ file := text, lines, parsed, code := resolved, read, parses, resolves := done }, printed⟩

theorem reassembled_runs_alike_read : ∃ program : TextProgram readAndSysctl archX8664,
    ∃ again, assembled program.code = some again ∧ MergedClean again ∧
      again.length = allowRead.length ∧
      ∀ stale data, ∃ value value', bpfRun stale allowRead data = some value ∧
        bpfRun stale again data = some value' ∧ shownReturn value' = shownReturn value := by
  obtain ⟨program, printed⟩ := allow_read_printed
  exact ⟨program, reassembled_runs_alike readAndSysctl read_and_sysctl_knows
    read_and_sysctl_short archX8664 allowRead (by decide) (by decide) ⟨by decide, by decide⟩
    allow_read_kept 0 program printed⟩

end Ceccomp
