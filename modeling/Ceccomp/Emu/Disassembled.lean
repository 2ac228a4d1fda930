import Ceccomp.Emu.Agreement
import Ceccomp.Text.Reassembled

/-!
The emulator on the text of `disasm`: what it reports of a printed filter is what the
kernel does with that filter.
-/

namespace Ceccomp

theorem action_shown (value : Word) :
    Formatter.objPrinter (actionObj (shownReturn value)) = Formatter.objPrinter (actionObj value) := by
  unfold shownReturn
  by_cases bare : value &&& seccompRetActionFull ∈ bareActions
  · rw [if_pos bare]
    have again : value &&& seccompRetActionFull &&& seccompRetActionFull =
        value &&& seccompRetActionFull := by
      rw [BitVec.and_assoc, BitVec.and_self]
    unfold actionObj decodeReturnK
    rw [again]
    simp only [bareActions, List.mem_cons, List.not_mem_nil, or_false] at bare
    rcases bare with same | same | same | same | same <;> rw [same] <;> rfl
  · rw [if_neg bare]

theorem shown_watched_alike (stale : Nat → Word) (prog : List Filter) (data : SeccompData)
    (watched next : Watched) :
    watchedStep stale (prog.map Filter.shown) data watched = .go next ↔
      watchedStep stale prog data watched = .go next := by
  have here : insnAt (prog.map Filter.shown) watched.state.pc =
      (insnAt prog watched.state.pc).map Insn.shown := by
    unfold insnAt
    rw [List.getElem?_map]
    cases prog[watched.state.pc]? with
    | none => rfl
    | some f => exact filter_shown_insn f
  unfold watchedStep
  rw [here]
  cases insnAt prog watched.state.pc with
  | none => exact Iff.rfl
  | some insn =>
      cases insn with
      | retK k => simp [Insn.shown, Insn.exec]
      | ldAbs _ | ldLen _ | ldImm _ _ | ldMem _ _ | st _ _ | alu _ _ | neg | tax | txa | ja _
      | jmp _ _ _ _ | retA => exact Iff.rfl

theorem shown_unread (stale : Nat → Word) (prog : List Filter) (data : SeccompData)
    (unread : OverflowUnread stale prog data) :
    OverflowUnread stale (prog.map Filter.shown) data := by
  intro n watched reached overflowed insn here
  rw [Machine.after_congr _ _ (shown_watched_alike stale prog data)] at reached
  unfold insnAt at here
  rw [List.getElem?_map] at here
  cases found : prog[watched.state.pc]? with
  | none => simp [found] at here
  | some f =>
      simp only [found, Option.map_some, Option.bind_some, filter_shown_insn] at here
      obtain ⟨own, decoded, rfl⟩ := Option.map_eq_some_iff.mp here
      have silent := unread n watched reached overflowed own (by rw [insnAt, found]; exact decoded)
      cases own <;> exact silent

theorem program_reports (lib : Libseccomp) {localArch : Word} (program : TextProgram lib localArch)
    (arg : EmuArg) (nr : Word) (known : Emu.sysNumber lib arg = .ok nr) (stale mem : Nat → Word)
    (insns : List Insn) (assembles : Assembles program insns)
    (unread : OverflowUnread stale (insns.map Insn.filter) (arg.data nr)) (value : Word)
    (ran : bpfRun stale (insns.map Insn.filter) (arg.data nr) = some value) :
    ∃ shown, Formatter.objPrinter (actionObj value) = some shown ∧
      Emu.reported lib program.text (.withMem mem) arg = some (.ok (shown ++ ['\n'])) := by
  have ready := program_ready program insns assembles
  obtain ⟨emulatedValue, shown, _, _, emulated, prints, call, _⟩ := emulate_v_reports lib program.text
    insns (.withMem mem) ⟨ready, rfl⟩ arg nr known
  rw [emulated_stale _ stale insns _ _ ready.nonempty ready.clean] at emulated
  have ended : Machine.result (bpfStep stale (insns.map Insn.filter) (arg.data nr)) insns.length
      .initial = some (.ret value) := by
    unfold bpfRun at ran
    rw [List.length_map] at ran
    split at ran
    · next same =>
        cases ran
        exact same
    · cases ran
  have within : insns.length ≤ program.text.length := by
    rw [ready.length]
    exact List.length_filter_le _ _
  have agrees := Machine.result_mono _ _ (program.text.length + 1) _ _
    (watched_agrees stale _ _ _ unread _ ended) (by omega)
  rw [emulatedResult?, agrees] at emulated
  cases emulated
  refine ⟨shown, prints, ?_⟩
  rw [Emu.reported, call]
  rfl

/-- For every system call, `emu` reports of the text of `disasm` the action that the
kernel's run of the printed filter returns, unless that run reads a `$X` that a shift has
overflowed. -/
theorem disassembly_emulates (lib : Libseccomp) (knows : lib.KnowsArchs)
    (short : lib.ShortNames) (scmpArch : Word) (prog : List Filter) (nonempty : prog ≠ [])
    (few : prog.length ≤ bpfMaxInsns) (clean : CheckClean prog)
    (kept : NamesKept lib scmpArch prog) (pid : Nat) (program : TextProgram lib scmpArch)
    (printed : printProg lib scmpArch prog pid false = .ok (some program.file))
    (arg : EmuArg) (nr : Word) (known : Emu.sysNumber lib arg = .ok nr) (stale mem : Nat → Word)
    (unread : OverflowUnread stale prog (arg.data nr)) :
    ∃ value shown, bpfRun stale prog (arg.data nr) = some value ∧
      Formatter.objPrinter (actionObj value) = some shown ∧
      Emu.reported lib program.text (.withMem mem) arg = some (.ok (shown ++ ['\n'])) := by
  obtain ⟨text, parsed, text_, reads⟩ := accepted_reads_again lib knows short scmpArch prog
    nonempty few clean kept pid
  have same : program.file = text := by
    rw [printed] at text_
    exact Option.some.inj (Except.ok.inj text_)
  have filters := (again_assembles reads program same).2
  obtain ⟨insns, assembles⟩ := program_assembles program
  have made : insns.map Insn.filter = prog.map Filter.shown := by
    have both := assembles.assembled
    rw [filters] at both
    exact (Option.some.inj both).symm
  obtain ⟨value, ran⟩ := clean_run_returns stale prog (arg.data nr) nonempty clean
  -- the reassembled filter may drop data, which is not reported either
  have alike := shown_runs_alike stale prog (arg.data nr)
  rw [ran, Option.map_some, Option.map_eq_some_iff] at alike
  obtain ⟨again, ranAgain, agree⟩ := alike
  rw [← made] at ranAgain
  obtain ⟨shown, prints, reported⟩ := program_reports lib program arg nr known stale mem insns
    assembles (by rw [made]; exact shown_unread stale prog _ unread) again ranAgain
  refine ⟨value, shown, ran, ?_, reported⟩
  rw [← action_shown, ← agree, action_shown]
  exact prints

theorem disassembly_emulates_read : ∃ program : TextProgram readAndSysctl archX8664,
    ∃ value shown, bpfRun (fun _ => 0) allowRead (zeroArg.data 0) = some value ∧
      Formatter.objPrinter (actionObj value) = some shown ∧
      Emu.reported readAndSysctl program.text (.withMem fun _ => 0) zeroArg =
        some (.ok (shown ++ ['\n'])) := by
  obtain ⟨program, printed⟩ := allow_read_printed
  refine ⟨program, disassembly_emulates readAndSysctl read_and_sysctl_knows
    read_and_sysctl_short archX8664 allowRead (by decide) (by decide) ⟨by decide, by decide⟩
    allow_read_kept 0 program printed zeroArg 0 (by decide) _ _ ?_⟩
  refine no_shift_unread _ _ _ ?_
  intro pc insn here
  match pc, here with
  | 0, here | 1, here | 2, here | 3, here => cases here; rfl
  | more + 4, here => cases here

end Ceccomp
