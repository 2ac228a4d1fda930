import Ceccomp.Emu.Kernel
import Mathlib.Tactic.IntervalCases

/-!
Calls of `emulate_v` one after another. What an earlier call leaves behind, in `mem` and
in the return lines, changes nothing that a later call prints.
-/

namespace Ceccomp

open Machine (Next)

def Statement.bare (statement : Statement) : Statement :=
  match statement.line with
  | .return_ line => { statement with line := .return_ { line with realObj := .of .kill } }
  | _ => statement

/-- The parts that two statements share which differ in nothing else. -/
structure BareAlike (statement other : Statement) : Prop where
  textNr : statement.textNr = other.textNr
  codeNr : statement.codeNr = other.codeNr
  labelDecl : statement.labelDecl = other.labelDecl
  line : statement.line = other.line ∨ ∃ line shown, statement.line = .return_ line ∧
    other.line = .return_ { line with realObj := shown }

theorem bare_alike (statement other : Statement) (same : statement.bare = other.bare) :
    BareAlike statement other := by
  have numbers (s : Statement) : s.bare.textNr = s.textNr ∧ s.bare.codeNr = s.codeNr ∧
      s.bare.labelDecl = s.labelDecl := by
    unfold Statement.bare
    split <;> exact ⟨rfl, rfl, rfl⟩
  obtain ⟨textNr, codeNr, labelDecl⟩ := numbers statement
  obtain ⟨textNr', codeNr', labelDecl'⟩ := numbers other
  refine
    { textNr := by rw [← textNr, same, textNr']
      codeNr := by rw [← codeNr, same, codeNr']
      labelDecl := by rw [← labelDecl, same, labelDecl']
      line := ?_ }
  have lines := congrArg Statement.line same
  unfold Statement.bare at lines
  split at lines
  · next line returns =>
      split at lines
      · next shown returns' =>
          refine Or.inr ⟨line, shown.realObj, returns, ?_⟩
          simp only [Line.return_.injEq, ReturnLine.mk.injEq, and_true] at lines
          rw [returns', lines]
      · next plain =>
          exact absurd lines.symm (plain _)
  · next plain =>
      split at lines
      · exact absurd lines (plain _)
      · exact Or.inl lines

theorem bare_empty (statement : Statement) :
    statement.bare.line = .empty ↔ statement.line = .empty := by
  unfold Statement.bare
  split
  · next line returns => simp [returns]
  · rfl

theorem code_ptrs_bare (text : List Statement) :
    codePtrs (text.map Statement.bare) = (codePtrs text).map Statement.bare := by
  unfold codePtrs
  rw [List.filter_map]
  congr 2
  funext statement
  simp [bare_empty]

theorem count_code_bare (text other : List Statement)
    (same : text.map Statement.bare = other.map Statement.bare) (i : Nat) :
    countCode (text.take i) = countCode (other.take i) := by
  have counted (some_ : List Statement) : countCode (some_.map Statement.bare) = countCode some_ := by
    rw [countCode, code_ptrs_bare, List.length_map, countCode]
  rw [← counted (text.take i), ← counted (other.take i), List.map_take, List.map_take, same]

theorem bare_at (text other : List Statement)
    (same : text.map Statement.bare = other.map Statement.bare) (i : Nat) (statement : Statement)
    (found : text[i]? = some statement) :
    ∃ twin, other[i]? = some twin ∧ BareAlike statement twin := by
  have there : (other.map Statement.bare)[i]? = some statement.bare := by
    rw [← same, List.getElem?_map, found]
    rfl
  rw [List.getElem?_map] at there
  obtain ⟨twin, at_, bare⟩ := Option.map_eq_some_iff.mp there
  exact ⟨twin, at_, bare_alike statement twin bare.symm⟩

theorem alike_stands (statement twin : Statement) (alike : BareAlike statement twin) (insn : Insn)
    (stands : twin.line.Stands insn) : statement.line.Stands insn := by
  rcases alike.line with same | ⟨line, shown, returns, returns'⟩
  · rw [same]
    exact stands
  · rw [returns'] at stands
    rw [returns]
    cases (show ReturnLine.Stands _ insn from stands) with
    | a type => exact .a type
    | number type => exact .number type
    | action value type => exact .action value type

theorem alike_near (statement twin : Statement) (alike : BareAlike statement twin)
    (near : twin.Near) : statement.Near := by
  rcases alike.line with same | ⟨line, shown, returns, returns'⟩
  · exact
      { jump := fun line jumps => near.jump line (same ▸ jumps)
        args := fun line assigns => near.args line (same ▸ assigns)
        ret := fun line returns => near.ret line (same ▸ returns) }
  · exact
      { jump := by simp [returns]
        args := by simp [returns]
        ret := fun other same => by
          rw [returns] at same
          cases same
          exact near.ret { line with realObj := shown } returns' }

theorem bare_ready (text other : List Statement) (insns : List Insn)
    (same : text.map Statement.bare = other.map Statement.bare) (ready : TextReady other insns) :
    TextReady text insns := by
  have counts := count_code_bare text other same
  have lengths : text.length = other.length := by
    have := congrArg List.length same
    simpa using this
  have all : countCode text = countCode other := by
    have := counts text.length
    rwa [List.take_length, lengths, List.take_length] at this
  have ptrs : (codePtrs text).map Statement.bare = (codePtrs other).map Statement.bare := by
    rw [← code_ptrs_bare, same, code_ptrs_bare]
  have twin (statement : Statement) (member : statement ∈ text) :
      ∃ shown ∈ other, BareAlike statement shown := by
    obtain ⟨i, found⟩ := List.mem_iff_getElem?.mp member
    obtain ⟨shown, there, alike⟩ := bare_at text other same i statement found
    exact ⟨shown, List.mem_of_getElem? there, alike⟩
  exact
    { textNr := fun i statement found => by
        obtain ⟨shown, there, alike⟩ := bare_at text other same i statement found
        rw [alike.textNr, ready.textNr i shown there]
      codeNr := fun i statement found => by
        obtain ⟨shown, there, alike⟩ := bare_at text other same i statement found
        rw [alike.codeNr, ready.codeNr i shown there, counts]
      length := by rw [ready.length, all]
      nonempty := ready.nonempty
      few := ready.few
      stands := fun j statement found => by
        obtain ⟨shown, there, alike⟩ := bare_at _ _ ptrs j statement found
        obtain ⟨insn, here, stands⟩ := ready.stands j shown there
        exact ⟨insn, here, alike_stands statement shown alike insn stands⟩
      leads := fun statement member line jumps label takes => by
        obtain ⟨shown, there, alike⟩ := twin statement member
        have jumps' : shown.line = .jump line := by
          rcases alike.line with same | ⟨_, _, returns, _⟩
          · rw [← same, jumps]
          · rw [jumps] at returns
            cases returns
        have leads := ready.leads shown there line jumps' label takes
        exact
          { inside := by
              rw [alike.codeNr, all]
              exact leads.inside
            declared := fun key named => by
              obtain ⟨filled, decl, declared, declares, nr⟩ := leads.declared key named
              obtain ⟨k, at_⟩ := List.mem_iff_getElem?.mp declared
              obtain ⟨mine, here, twins⟩ := bare_at other text same.symm k decl at_
              exact ⟨filled, mine, List.mem_of_getElem? here, by rw [← twins.labelDecl, declares],
                by rw [← twins.codeNr, nr, alike.codeNr]⟩
            default := leads.default }
      near := fun statement member => by
        obtain ⟨shown, there, alike⟩ := twin statement member
        exact alike_near statement shown alike (ready.near shown there)
      clean := ready.clean }

theorem set_bare (text : List Statement) (i : Nat) (before : Statement)
    (found : text[i]? = some before) (line : ReturnLine) (returns : before.line = .return_ line)
    (shown : Obj) :
    (text.set i { before with line := .return_ { line with realObj := shown } }).map Statement.bare =
      text.map Statement.bare := by
  have same : ({ before with line := .return_ { line with realObj := shown } } : Statement).bare =
      before.bare := by
    simp [Statement.bare, returns]
  rw [List.map_set, same]
  exact set_same _ i _ (by rw [List.getElem?_map, found]; rfl)

/-- What every call finds: the vectors as the resolver left them, up to earlier results. -/
structure Session (text : List Statement) (insns : List Insn) (vars : EmuVars) : Prop where
  ready : TextReady text insns
  len : vars .dataLen = seccompDataLen

theorem entered_words (arg : EmuArg) (nr : Word) (vars : EmuVars) (offset : Nat) (word : Word)
    (loaded : (arg.data nr).load offset = some word) :
    Emu.entered arg nr vars (dataCell offset) = word := by
  unfold SeccompData.load at loaded
  split at loaded
  · unfold dataCell
    generalize offset / 4 = idx at loaded
    obtain ⟨inside, same⟩ := List.getElem?_eq_some_iff.mp loaded
    have small : idx < 16 := inside
    clear loaded
    interval_cases idx <;> exact same
  · cases loaded

theorem entered_mirrors (arg : EmuArg) (nr : Word) (vars : EmuVars)
    (len : vars .dataLen = seccompDataLen) :
    VarsMirror (fun slot => vars (.mem slot)) (arg.data nr) ⟨1, Emu.entered arg nr vars⟩ .initial :=
  { pc := rfl
    A := rfl
    X := rfl
    mem := fun _ => rfl
    len
    words := entered_words arg nr vars }

/-- How the BPF machine that the emulator amounts to ends, within a turn for each line. -/
def emulatedResult? (stale : Nat → Word) (insns : List Insn) (data : SeccompData) (lines : Nat) :
    Option BpfEnd :=
  Machine.result (emulatedStep stale (insns.map Insn.filter) data) (lines + 1) .initial

theorem kill_printed : Formatter.objPrinter (.of .kill) = Formatter.objPrinter (actionObj 0) := rfl

/-- A call prints the action of the value the machine returns, and leaves a session. -/
theorem emulate_v_reports (lib : Libseccomp) (text : List Statement) (insns : List Insn)
    (vars : EmuVars) (session : Session text insns vars) (arg : EmuArg) (nr : Word)
    (known : Emu.sysNumber lib arg = .ok nr) :
    ∃ value shown text' vars',
      emulatedResult? (fun slot => vars (.mem slot)) insns (arg.data nr) text.length =
        some (.ret value) ∧
      Formatter.objPrinter (actionObj value) = some shown ∧
      Emu.emulateV lib text vars arg = some (.ok (shown ++ ['\n'], text', vars')) ∧
      text'.length = text.length ∧ Session text' insns vars' := by
  have ready := session.ready
  have mirrors := entered_mirrors arg nr vars session.len
  have nonempty : 0 < insns.length := List.length_pos_iff.mpr ready.nonempty
  obtain ⟨answer, ending, found, walked, alike, _⟩ :=
    emulator_follows text insns ready (Emu.entered arg nr vars)
  -- the run over the text follows the code, and the code follows the masking machine
  obtain ⟨same, ran, stops⟩ := Machine.result_simulation (codeStep (codePtrs text))
    (emulatedStep (fun slot => vars (.mem slot)) (insns.map Insn.filter) (arg.data nr))
    (fun state mirror => VarsMirror (fun slot => vars (.mem slot)) (arg.data nr) state mirror ∧
      mirror.pc < insns.length)
    StopsAlike (code_matched text insns ready _ _) (text.length + 1) _ _ ⟨mirrors, nonempty⟩ ending
    walked
  have init : Emu.initAttr lib arg vars = .ok (Emu.entered arg nr vars) := by
    rw [Emu.initAttr, known]
    rfl
  cases answer with
  | failed => cases ending <;> exact alike.elim
  | out statement state =>
      have call : Emu.emulateV lib text vars arg =
          (Formatter.objPrinter (Emu.resultObj statement)).map fun shown =>
            .ok (shown ++ ['\n'], state.text, state.vars) := by
        unfold Emu.emulateV
        rw [init]
        dsimp only
        rw [found]
      cases ending with
      | returned codeNr line vars' =>
          cases same with
          | stuck => exact stops.elim
          | ret value =>
              obtain ⟨before, given, result, there, returns, rfl, rfl, written, keeps⟩ := alike
              obtain ⟨printed, len⟩ := stops
              obtain ⟨shown, prints⟩ := action_printed value
              -- the result is written into the return line, which changes nothing that is read
              refine ⟨value, shown, state.text, state.vars, ran, prints, ?_, ?_, ?_, ?_⟩
              · rw [call, Emu.resultObj]
                dsimp only
                rw [printed, prints]
                rfl
              · rw [written, List.length_set]
              · obtain ⟨i, at_, _, _⟩ := count_at_code text _ before there
                have number : before.textNr - 1 = i := by
                  rw [ready.textNr i before at_, Nat.add_sub_cancel]
                have same := set_bare text i before at_ given returns result
                rw [written, number]
                exact bare_ready _ _ insns same ready
              · rw [keeps, len]
      | interrupted codeNr vars' =>
          cases same with
          | stuck => exact stops.elim
          | ret value =>
              obtain ⟨there, unchanged, keeps, line, assigns, _⟩ := alike
              obtain ⟨rfl, len⟩ := stops
              obtain ⟨shown, prints⟩ := action_printed 0
              refine ⟨0, shown, state.text, state.vars, ran, prints, ?_, ?_, ?_, ?_⟩
              · rw [call, Emu.resultObj, assigns]
                dsimp only
                rw [kill_printed, prints]
                rfl
              · rw [unchanged]
              · rw [unchanged]
                exact ready
              · rw [keeps, len]
      | stuck => exact alike.elim

/-! The machine reads no slot of `mem` that its own run has not written. -/

theorem emulated_slots_written (stale : Nat → Word) (prog : List Filter) (data : SeccompData)
    (n : Nat) (state : BpfState)
    (reached : Machine.after (emulatedStep stale prog data) .initial n = some state) :
    SlotsWritten prog state := by
  refine Machine.after_invariant _ (SlotsWritten prog) ?_ _ (slots_written_initial prog) n state reached
  intro before next written moved slot set
  obtain ⟨insn, here, exec⟩ := emulated_step_go stale prog data before next moved
  obtain ⟨kept, stored⟩ := exec_mem stale data before.pc _ insn next exec
  have member := successors_follow _ _ _ (exec_successor stale data before.pc _ insn next exec)
  rcases merged_mask_covered prog before.pc insn here next.pc member slot set with
    early | ⟨src, k, same, rfl⟩
  · apply kept slot
    rw [entered_mem]
    exact written slot early
  · exact stored src k same

theorem emulated_stale (stale other : Nat → Word) (insns : List Insn) (data : SeccompData)
    (lines : Nat) (nonempty : insns ≠ []) (clean : MergedClean (insns.map Insn.filter)) :
    emulatedResult? stale insns data lines = emulatedResult? other insns data lines := by
  have filled : insns.map Insn.filter ≠ [] := by simpa using nonempty
  have passes := ((check_prog_clean_iff merged _ filled).mp clean).1
  apply Machine.result_congr
  intro n state reached
  have written := emulated_slots_written stale _ data n state reached
  unfold emulatedStep
  cases here : insnAt (insns.map Insn.filter) state.pc with
  | none => rfl
  | some insn =>
      dsimp only
      cases insn with
      | ldMem dst k =>
          have inside : state.pc < (insns.map Insn.filter).length := by
            obtain ⟨f, at_, _⟩ := Option.bind_eq_some_iff.mp here
            exact (List.getElem?_eq_some_iff.mp at_).1
          obtain ⟨insn, found, admissible⟩ := passes state.pc inside
          rw [here] at found
          cases found
          have filled := written k.toNat (bit16_set _ _ admissible.2)
          obtain ⟨value, held⟩ := Option.isSome_iff_exists.mp filled
          have mem : ((Insn.ldMem dst k).entered state.regs).mem k.toNat = some value := by
            rw [entered_mem, held]
          simp only [Insn.exec, mem, Option.getD_some]
      | _ => rfl

section Histories

variable (lib : Libseccomp)

/-- What a call prints, or the message it ends with. -/
def Emu.reported (text : List Statement) (vars : EmuVars) (arg : EmuArg) :
    Option (Except Message Text) :=
  (Emu.emulateV lib text vars arg).map (Except.map Prod.fst)

theorem session_answers (text : List Statement) (insns : List Insn) (vars other : EmuVars)
    (session : Session text insns vars) (origin : List Statement)
    (first : Session origin insns other) (lines : text.length = origin.length) (arg : EmuArg) :
    (∃ message, Emu.emulateV lib text vars arg = some (.error message) ∧
      Emu.reported lib origin other arg = some (.error message)) ∨
    ∃ shown text' vars', Emu.emulateV lib text vars arg = some (.ok (shown, text', vars')) ∧
      Emu.reported lib origin other arg = some (.ok shown) ∧ text'.length = text.length ∧
      Session text' insns vars' := by
  cases known : Emu.sysNumber lib arg with
  | error message =>
      have ends (some_ : List Statement) (held : EmuVars) :
          Emu.emulateV lib some_ held arg = some (.error message) := by
        simp only [Emu.emulateV, Emu.initAttr, known, Except.map]
      refine Or.inl ⟨message, ends text vars, ?_⟩
      rw [Emu.reported, ends]
      rfl
  | ok nr =>
      obtain ⟨value, shown, text', vars', ran, prints, call, length, again⟩ :=
        emulate_v_reports lib text insns vars session arg nr known
      obtain ⟨value', shown', _, _, ran', prints', call', _⟩ :=
        emulate_v_reports lib origin insns other first arg nr known
      rw [lines, emulated_stale _ (fun slot => other (.mem slot)) insns _ _ session.ready.nonempty
        session.ready.clean, ran'] at ran
      cases ran
      rw [prints] at prints'
      cases prints'
      refine Or.inr ⟨_, text', vars', call, ?_, length, again⟩
      rw [Emu.reported, call']
      rfl

theorem emulate_all_session (history : List EmuArg) (text : List Statement) (insns : List Insn)
    (vars : EmuVars) (session : Session text insns vars) :
    (∃ message, Emu.emulateAll lib history text vars = some (.error message)) ∨
    ∃ text' vars', Emu.emulateAll lib history text vars = some (.ok (text', vars')) ∧
      text'.length = text.length ∧ Session text' insns vars' := by
  induction history generalizing text vars with
  | nil => exact Or.inr ⟨text, vars, rfl, rfl, session⟩
  | cons arg rest ih =>
      unfold Emu.emulateAll
      rcases session_answers lib text insns vars vars session text session rfl arg with
        ⟨message, call, _⟩ | ⟨shown, text', vars', call, _, length, again⟩
      · rw [call]
        exact Or.inl ⟨message, rfl⟩
      · rw [call]
        dsimp only
        rcases ih text' vars' again with ⟨message, ends⟩ | ⟨last, held, ends, kept, left⟩
        · exact Or.inl ⟨message, ends⟩
        · exact Or.inr ⟨last, held, ends, by rw [kept, length], left⟩

/-- The lines `probe` prints, if each name is answered as by a first call. -/
def probeLines (first : Text → Option (Except Message Text)) :
    List Text → Option (List Text × Option Message)
  | [] => some ([], none)
  | name :: rest =>
      match first name with
      | none => none
      | some (.error message) => some ([probeName name], some message)
      | some (.ok shown) =>
          (probeLines first rest).map fun (later, failed) => ((probeName name ++ shown) :: later, failed)

theorem probe_names_lines (scmpArch : Word) (names : List Text) (text origin : List Statement)
    (insns : List Insn) (vars other : EmuVars) (session : Session text insns vars)
    (first : Session origin insns other) (lines : text.length = origin.length) :
    probeNames lib scmpArch names text vars =
      probeLines (fun name => Emu.reported lib origin other (Emu.probeArg scmpArch name)) names := by
  induction names generalizing text vars with
  | nil => rfl
  | cons name rest ih =>
      unfold probeNames probeLines
      rcases session_answers lib text insns vars other session origin first lines
          (Emu.probeArg scmpArch name) with
        ⟨message, call, same⟩ | ⟨shown, text', vars', call, same, length, again⟩
      · rw [call, same]
      · rw [call, same]
        dsimp only
        rw [ih text' vars' again (by rw [length, lines])]

end Histories

/-- No matter what was in `mem` and which calls came before, `emulate_v` reports what a
first call reports with all memory zero; so `probe` answers each name as if it were the
only one of the list, in whatever order. -/
theorem emulate_v_forgets (lib : Libseccomp) {localArch : Word} (program : TextProgram lib localArch)
    (mem : Nat → Word) (history : List EmuArg) :
    (∃ left, Emu.emulateAll lib history program.text (.withMem mem) = some left ∧
      ∀ text vars, left = .ok (text, vars) → ∀ arg,
        ∃ answer, Emu.reported lib text vars arg = some answer ∧
          Emu.reported lib program.text .static arg = some answer) ∧
    ∀ scmpArch names, probeNames lib scmpArch names program.text (.withMem mem) =
      probeLines (fun name => Emu.reported lib program.text .static (Emu.probeArg scmpArch name))
        names := by
  obtain ⟨insns, assembles⟩ := program_assembles program
  have ready := program_ready program insns assembles
  have first : Session program.text insns .static := ⟨ready, rfl⟩
  have start : Session program.text insns (.withMem mem) := ⟨ready, rfl⟩
  refine ⟨?_, fun scmpArch names =>
    probe_names_lines lib scmpArch names _ _ insns _ _ start first rfl⟩
  rcases emulate_all_session lib history _ insns _ start with
    ⟨message, ends⟩ | ⟨text', vars', ends, length, session⟩
  · exact ⟨_, ends, fun text vars same => by cases same⟩
  · refine ⟨_, ends, fun text vars same arg => ?_⟩
    cases same
    rcases session_answers lib text' insns vars' .static session program.text first length arg with
      ⟨message, call, same⟩ | ⟨shown, _, _, call, same, _, _⟩
    · exact ⟨_, by rw [Emu.reported, call]; rfl, same⟩
    · exact ⟨_, by rw [Emu.reported, call]; rfl, same⟩

/-- System call 0 of x86_64, asked for by number. -/
def zeroArg : EmuArg :=
  { scmpArch := archX8664, sysName := some ['0'], args := fun _ => 0, ip := 0 }

/-- A second call, with `mem` as the first one left it, reports what a first one does. -/
theorem emulate_v_forgets_arch_guard :
    ∃ text vars, Emu.emulateAll namelessLib [zeroArg] archGuardProgram.text (.withMem fun _ => 9) =
        some (.ok (text, vars)) ∧
      Emu.reported namelessLib text vars zeroArg =
        Emu.reported namelessLib archGuardProgram.text .static zeroArg := by
  obtain ⟨⟨left, ran, forgets⟩, _⟩ :=
    emulate_v_forgets namelessLib archGuardProgram (fun _ => 9) [zeroArg]
  have returns : (Emu.emulateAll namelessLib [zeroArg] archGuardProgram.text
      (.withMem fun _ => 9)).map Except.toBool = some true := by decide +kernel
  rw [ran] at returns
  cases left with
  | error message => cases returns
  | ok both =>
      obtain ⟨answer, again, first⟩ := forgets both.1 both.2 rfl zeroArg
      exact ⟨both.1, both.2, ran, again.trans first.symm⟩

theorem probe_answers_alone (lib : Libseccomp) {localArch : Word}
    (program : TextProgram lib localArch) (scmpArch : Word) :
    probe lib scmpArch program.text =
      probeLines (fun name => Emu.reported lib program.text .static (Emu.probeArg scmpArch name))
        toTestList := by
  obtain ⟨insns, assembles⟩ := program_assembles program
  have ready := program_ready program insns assembles
  have session : Session program.text insns .static := ⟨ready, rfl⟩
  exact probe_names_lines lib scmpArch toTestList _ _ insns _ _ session session rfl

end Ceccomp
