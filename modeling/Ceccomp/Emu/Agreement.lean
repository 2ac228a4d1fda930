import Ceccomp.Emu.History

/-!
The emulator against the kernel's machine. A shift by `$X` keeps its amount in `$X` cut to
five bits; as long as no other instruction reads it then, both end alike.
-/

namespace Ceccomp

open Machine (Next)

def Insn.readsX : Insn → Bool
  | .alu op .x => op != .lsh && op != .rsh
  | .jmp _ .x _ _ => true
  | .st .X _ => true
  | .txa => true
  | _ => false

def Insn.setsX : Insn → Bool
  | .tax | .ldImm .X _ | .ldMem .X _ | .ldLen .X => true
  | _ => false

/-- A state of the BPF machine, and whether `$X` has been the amount of a shift, and
larger than its five bits, since it was last set. -/
structure Watched where
  state : BpfState
  overflowed : Bool

def Insn.overflows (insn : Insn) (watched : Watched) : Bool :=
  !insn.setsX &&
    (watched.overflowed || (insn.shiftsByX && decide (32 ≤ watched.state.regs.X.toNat)))

def watchedStep (stale : Nat → Word) (prog : List Filter) (data : SeccompData) (watched : Watched) :
    Next Watched BpfEnd :=
  match insnAt prog watched.state.pc with
  | none => .stop .stuck
  | some insn =>
      match insn.exec stale data watched.state.pc watched.state.regs with
      | .stop ending => .stop ending
      | .go next => .go ⟨next, insn.overflows watched⟩

def Watched.initial : Watched := ⟨.initial, false⟩

/-- No instruction of the run reads `$X` after a shift by it that overflowed and before
it is set again, except as a shift amount. -/
def OverflowUnread (stale : Nat → Word) (prog : List Filter) (data : SeccompData) : Prop :=
  ∀ n watched, Machine.after (watchedStep stale prog data) .initial n = some watched →
    watched.overflowed = true → ∀ insn, insnAt prog watched.state.pc = some insn → insn.readsX = false

theorem cut_small (regs : Regs) (small : regs.X.toNat < 32) : regs.cut = regs := by
  unfold Regs.cut
  rw [shift_amount _ small]

theorem cut_cut (regs : Regs) : regs.cut.cut = regs.cut := by
  apply cut_small
  have five := low_five_bits regs.X
  simp only [Regs.cut]
  omega

theorem shift_cut (op : AluOp) (shifts : op = .lsh ∨ op = .rsh) (a x : Word) :
    op.eval a (x &&& 0x1f) = op.eval a x := by
  have five := low_five_bits x
  rcases shifts with rfl | rfl <;> simp only [AluOp.eval, five, Nat.mod_mod]

/-- What a step leaves, with `$X` cut unless the instruction set it. -/
def Insn.cutNext (insn : Insn) (next : Next BpfState BpfEnd) : Next BpfState BpfEnd :=
  match next with
  | .go next => .go ⟨next.pc, if insn.setsX then next.regs else next.regs.cut⟩
  | .stop ending => .stop ending

theorem exec_cut (stale : Nat → Word) (data : SeccompData) (pc : Nat) (regs : Regs) (insn : Insn)
    (unread : insn.readsX = false) :
    insn.exec stale data pc regs.cut = insn.cutNext (insn.exec stale data pc regs) := by
  cases insn with
  | ldAbs k =>
      simp only [Insn.exec]
      cases data.load k.toNat <;> rfl
  | ldLen dst | ldImm dst k => cases dst <;> rfl
  | ldMem dst k =>
      simp only [Insn.exec]
      by_cases small : k.toNat < bpfMemWords
      · rw [if_pos small, if_pos small]
        cases dst <;> rfl
      · rw [if_neg small, if_neg small]
        rfl
  | st src k =>
      cases src with
      | X => cases unread
      | A =>
          simp only [Insn.exec]
          by_cases small : k.toNat < bpfMemWords
          · rw [if_pos small, if_pos small]
            rfl
          · rw [if_neg small, if_neg small]
            rfl
  | alu op src =>
      cases src with
      | k value =>
          rw [Insn.exec, Insn.exec]
          by_cases zero : op = .div ∧ (Src.k value).eval regs = 0
          · have zero' : op = .div ∧ (Src.k value).eval regs.cut = 0 := zero
            rw [if_pos zero, if_pos zero']
            rfl
          · have zero' : ¬(op = .div ∧ (Src.k value).eval regs.cut = 0) := zero
            rw [if_neg zero, if_neg zero']
            rfl
      -- of the instructions that use X only the shifts do not read it
      | x =>
          have shifts : op = .lsh ∨ op = .rsh := by
            cases op <;> first | exact Or.inl rfl | exact Or.inr rfl | cases unread
          have noDiv (some_ : Regs) : ¬(op = .div ∧ Src.x.eval some_ = 0) := by
            rcases shifts with rfl | rfl <;> simp
          have same : op.eval regs.cut.A (Src.x.eval regs.cut) = op.eval regs.A (Src.x.eval regs) :=
            shift_cut op shifts regs.A regs.X
          rw [Insn.exec, Insn.exec, if_neg (noDiv _), if_neg (noDiv _), same]
          rfl
  | jmp op src jt jf =>
      cases src with
      | x => cases unread
      | k value => rfl
  | txa => cases unread
  | neg | tax | ja k | retA | retK k => rfl

def Watched.emulated (watched : Watched) : BpfState :=
  ⟨watched.state.pc, if watched.overflowed then watched.state.regs.cut else watched.state.regs⟩

theorem shifts_plain (insn : Insn) (shifts : insn.shiftsByX = true) :
    insn.readsX = false ∧ insn.setsX = false := by
  cases insn with
  | alu op src =>
      cases src with
      | k value => cases shifts
      | x => cases op <;> first | exact ⟨rfl, rfl⟩ | cases shifts
  | _ => cases shifts

def Insn.watchedNext (insn : Insn) (watched : Watched) (next : Next BpfState BpfEnd) :
    Next BpfState BpfEnd :=
  match next with
  | .go next => .go (Watched.emulated ⟨next, insn.overflows watched⟩)
  | .stop ending => .stop ending

theorem cut_next_watched (insn : Insn) (watched : Watched) (next : Next BpfState BpfEnd)
    (overflows : insn.overflows watched = !insn.setsX) :
    insn.cutNext next = insn.watchedNext watched next := by
  cases next with
  | stop ending => rfl
  | go next =>
      simp only [Insn.cutNext, Insn.watchedNext, Watched.emulated, overflows]
      cases insn.setsX <;> rfl

theorem plain_next_watched (insn : Insn) (watched : Watched) (next : Next BpfState BpfEnd)
    (plain : insn.overflows watched = false) : next = insn.watchedNext watched next := by
  cases next with
  | stop ending => rfl
  | go next =>
      simp only [Insn.watchedNext, Watched.emulated, plain]
      rfl

theorem watched_exec (stale : Nat → Word) (data : SeccompData) (watched : Watched) (insn : Insn)
    (unread : watched.overflowed = true → insn.readsX = false) :
    insn.exec stale data watched.state.pc (insn.entered watched.emulated.regs) =
      insn.watchedNext watched (insn.exec stale data watched.state.pc watched.state.regs) := by
  cases overflowed : watched.overflowed with
  | true =>
      have held : insn.entered watched.emulated.regs = watched.state.regs.cut := by
        simp only [Watched.emulated, overflowed, if_true, Insn.entered, cut_cut, ite_self]
      rw [held, exec_cut stale data _ _ insn (unread overflowed)]
      exact cut_next_watched insn watched _ (by simp [Insn.overflows, overflowed])
  | false =>
      have held : watched.emulated.regs = watched.state.regs := by
        simp [Watched.emulated, overflowed]
      rw [held]
      cases shifts : insn.shiftsByX with
      | false =>
          have kept : insn.entered watched.state.regs = watched.state.regs := by
            simp [Insn.entered, shifts]
          rw [kept]
          exact plain_next_watched insn watched _ (by simp [Insn.overflows, overflowed, shifts])
      | true =>
          obtain ⟨unread, unset⟩ := shifts_plain insn shifts
          have cut : insn.entered watched.state.regs = watched.state.regs.cut := by
            simp [Insn.entered, shifts]
          rw [cut]
          by_cases small : watched.state.regs.X.toNat < 32
          · rw [cut_small _ small]
            exact plain_next_watched insn watched _ (by simp [Insn.overflows, overflowed, small])
          · rw [exec_cut stale data _ _ insn unread]
            refine cut_next_watched insn watched _ ?_
            have large : 32 ≤ watched.state.regs.X.toNat := by omega
            simp [Insn.overflows, overflowed, shifts, unset, large]

theorem bpf_step_none (stale : Nat → Word) (prog : List Filter) (data : SeccompData)
    (state : BpfState) (missing : insnAt prog state.pc = none) :
    bpfStep stale prog data state = .stop .stuck := by
  unfold bpfStep
  cases found : prog[state.pc]? with
  | none => rfl
  | some f =>
      have invalid : f.insn? = none := by simpa [insnAt, found] using missing
      simp only [invalid]

/-- A state of the BPF machine, and the emulator's where the run has been watched. -/
def WatchedBy (stale : Nat → Word) (prog : List Filter) (data : SeccompData)
    (state mirror : BpfState) : Prop :=
  ∃ n watched, Machine.after (watchedStep stale prog data) .initial n = some watched ∧
    watched.state = state ∧ watched.emulated = mirror

theorem watched_matched (stale : Nat → Word) (prog : List Filter) (data : SeccompData)
    (unread : OverflowUnread stale prog data) (state mirror : BpfState)
    (related : WatchedBy stale prog data state mirror) :
    (∀ next, bpfStep stale prog data state = .go next →
      ∃ reached, emulatedStep stale prog data mirror = .go reached ∧
        WatchedBy stale prog data next reached) ∧
    (∀ ending, bpfStep stale prog data state = .stop ending →
      ∃ same, emulatedStep stale prog data mirror = .stop same ∧ ending = same) := by
  obtain ⟨n, watched, reached, rfl, rfl⟩ := related
  cases here : insnAt prog watched.state.pc with
  | none =>
      have there : insnAt prog watched.emulated.pc = none := here
      rw [bpf_step_none stale prog data watched.state here, emulatedStep, there]
      refine ⟨fun next same => (by cases same), fun ending same => ⟨.stuck, rfl, ?_⟩⟩
      cases same
      rfl
  | some insn =>
      have there : insnAt prog watched.emulated.pc = some insn := here
      have step := bpf_step_insn stale prog data watched.state insn here
      have turn : emulatedStep stale prog data watched.emulated =
          insn.watchedNext watched (bpfStep stale prog data watched.state) := by
        rw [emulatedStep, there, step]
        -- an instruction that reads X finds it as the kernel has it
        exact watched_exec stale data watched insn (fun flagged => unread n watched reached flagged insn here)
      rw [turn]
      constructor
      · intro next moved
        rw [moved]
        refine ⟨_, rfl, n + 1, ⟨next, insn.overflows watched⟩, ?_, rfl, rfl⟩
        refine (Machine.after_succ _ _ n _).mpr ⟨watched, reached, ?_⟩
        rw [step] at moved
        rw [watchedStep, here]
        dsimp only
        rw [moved]
      · intro ending stopped
        rw [stopped]
        exact ⟨_, rfl, rfl⟩

theorem watched_agrees (stale : Nat → Word) (prog : List Filter) (data : SeccompData) (fuel : Nat)
    (unread : OverflowUnread stale prog data) (ending : BpfEnd)
    (found : Machine.result (bpfStep stale prog data) fuel .initial = some ending) :
    Machine.result (emulatedStep stale prog data) fuel .initial = some ending := by
  obtain ⟨same, ran, rfl⟩ := Machine.result_simulation (bpfStep stale prog data)
    (emulatedStep stale prog data) (WatchedBy stale prog data) Eq
    (watched_matched stale prog data unread) fuel .initial .initial ⟨0, .initial, rfl, rfl, rfl⟩ ending
    found
  exact ran

/-- The emulator prints the action of the value that the kernel's run of the assembled
filters returns, in every run in which no instruction reads a `$X` that a shift has
overflowed. -/
theorem emulation_agrees (lib : Libseccomp) {localArch : Word} (program : TextProgram lib localArch)
    (arg : EmuArg) (nr : Word) (known : Emu.sysNumber lib arg = .ok nr) (stale mem : Nat → Word)
    (prog : List Filter) (asm : assembled program.code = some prog)
    (unread : OverflowUnread stale prog (arg.data nr)) :
    ∃ value shown, bpfRun stale prog (arg.data nr) = some value ∧
      Formatter.objPrinter (actionObj value) = some shown ∧
      Emu.reported lib program.text (.withMem mem) arg = some (.ok (shown ++ ['\n'])) := by
  obtain ⟨insns, assembles⟩ := program_assembles program
  have ready := program_ready program insns assembles
  have same : prog = insns.map Insn.filter := by
    rw [assembles.assembled] at asm
    exact (Option.some.inj asm).symm
  subst same
  have nonempty : insns.map Insn.filter ≠ [] := by simpa using ready.nonempty
  have clean := merged_clean_check _ nonempty ready.clean
  obtain ⟨n, last, value, bound, reached, stopped, _⟩ :=
    clean_run_stops stale _ (arg.data nr) nonempty clean
  have ran := Machine.result_of_after _ _ n last _ reached stopped
  obtain ⟨value', shown, _, _, emulated, prints, call, _⟩ := emulate_v_reports lib program.text insns
    (.withMem mem) ⟨ready, rfl⟩ arg nr known
  rw [emulated_stale _ stale insns _ _ ready.nonempty ready.clean] at emulated
  have within : insns.length ≤ program.text.length := by
    rw [ready.length]
    exact List.length_filter_le _ _
  rw [List.length_map] at bound
  have agrees := Machine.result_mono _ _ (program.text.length + 1) _ _
    (watched_agrees stale _ _ (n + 1) unread _ ran) (by omega)
  rw [emulatedResult?, agrees] at emulated
  cases emulated
  refine ⟨value, shown, ?_, prints, ?_⟩
  · have enough := Machine.result_mono _ _ (insns.map Insn.filter).length _ _ ran
      (by rw [List.length_map]; omega)
    rw [bpfRun, enough]
  · rw [Emu.reported, call]
    rfl

def overflowingShift : Text := "$X = 0x7fff0000\n$A <<= $X\n$A = $X\nreturn $A\n".toList

theorem overflowing_shift_read :
    (readProgram namelessLib archX8664 overflowingShift).isSome = true := by
  decide +kernel

def overflowingShiftProgram : TextProgram namelessLib archX8664 :=
  (readProgram namelessLib archX8664 overflowingShift).get overflowing_shift_read

/-- The kernel allows what the emulator says is killed. -/
theorem overflowing_shift_disagrees :
    ¬ ∀ (lib : Libseccomp) (localArch : Word) (program : TextProgram lib localArch) (arg : EmuArg)
      (nr : Word), Emu.sysNumber lib arg = .ok nr → ∀ (stale mem : Nat → Word) (prog : List Filter),
      assembled program.code = some prog →
      ∃ value shown, bpfRun stale prog (arg.data nr) = some value ∧
        Formatter.objPrinter (actionObj value) = some shown ∧
        Emu.reported lib program.text (.withMem mem) arg = some (.ok (shown ++ ['\n'])) := by
  intro claim
  have asm : assembled overflowingShiftProgram.code =
      some [⟨0x01, 0, 0, 0x7fff0000⟩, ⟨0x6c, 0, 0, 0⟩, ⟨0x87, 0, 0, 0⟩, ⟨0x16, 0, 0, 0⟩] := by
    decide +kernel
  obtain ⟨value, shown, run, prints, reports⟩ := claim namelessLib archX8664 overflowingShiftProgram
    zeroArg 0 (by decide +kernel) (fun _ => 0) (fun _ => 0) _ asm
  have ran : bpfRun (fun _ => 0)
      [⟨0x01, 0, 0, 0x7fff0000⟩, ⟨0x6c, 0, 0, 0⟩, ⟨0x87, 0, 0, 0⟩, ⟨0x16, 0, 0, 0⟩] (zeroArg.data 0) =
      some 0x7fff0000 := by
    decide +kernel
  have reported : Emu.reported namelessLib overflowingShiftProgram.text (.withMem fun _ => 0) zeroArg =
      some (.ok "KILL\n".toList) := by
    decide +kernel
  have allowed : Formatter.objPrinter (actionObj 0x7fff0000) = some "ALLOW".toList := by decide +kernel
  rw [ran] at run
  cases run
  rw [allowed] at prints
  cases prints
  rw [reported] at reports
  revert reports
  decide +kernel

theorem no_shift_unread (stale : Nat → Word) (prog : List Filter) (data : SeccompData)
    (plain : ∀ pc insn, insnAt prog pc = some insn → insn.shiftsByX = false) :
    OverflowUnread stale prog data := by
  intro n watched reached overflowed
  have never := Machine.after_invariant (watchedStep stale prog data)
    (fun watched => watched.overflowed = false) ?_ .initial rfl n watched reached
  · rw [never] at overflowed
    cases overflowed
  · intro before next clear moved
    unfold watchedStep at moved
    cases here : insnAt prog before.state.pc with
    | none => simp [here] at moved
    | some insn =>
        simp only [here] at moved
        split at moved
        · cases moved
        · cases moved
          simp [Insn.overflows, clear, plain _ insn here]

theorem short_run_unread (stale : Nat → Word) (prog : List Filter) (data : SeccompData) (turns : Nat)
    (ends : Machine.after (watchedStep stale prog data) .initial turns = none)
    (each : ∀ n < turns, ∀ watched ∈ Machine.after (watchedStep stale prog data) .initial n,
      watched.overflowed = true → ∀ insn ∈ insnAt prog watched.state.pc, insn.readsX = false) :
    OverflowUnread stale prog data := by
  intro n watched reached overflowed insn here
  have inside : n < turns := by
    apply Nat.lt_of_not_le
    intro past
    obtain ⟨earlier, there⟩ := Machine.after_earlier _ _ n turns watched reached past
    rw [ends] at there
    cases there
  exact each n inside watched reached overflowed insn here

def overwrittenShift : Text :=
  "$X = 0x7fff0000\n$A <<= $X\n$X = 0x7fff0000\n$A = $X\nreturn $A\n".toList

theorem overwritten_shift_read :
    (readProgram namelessLib archX8664 overwrittenShift).isSome = true := by
  decide +kernel

def overwrittenShiftProgram : TextProgram namelessLib archX8664 :=
  (readProgram namelessLib archX8664 overwrittenShift).get overwritten_shift_read

def overwrittenFilters : List Filter :=
  [⟨0x01, 0, 0, 0x7fff0000⟩, ⟨0x6c, 0, 0, 0⟩, ⟨0x01, 0, 0, 0x7fff0000⟩, ⟨0x87, 0, 0, 0⟩,
    ⟨0x16, 0, 0, 0⟩]

theorem emulation_agrees_overwritten :
    ∃ value shown, bpfRun (fun _ => 7) overwrittenFilters (zeroArg.data 0) = some value ∧
      Formatter.objPrinter (actionObj value) = some shown ∧
      Emu.reported namelessLib overwrittenShiftProgram.text (.withMem fun _ => 9) zeroArg =
        some (.ok (shown ++ ['\n'])) := by
  refine emulation_agrees namelessLib overwrittenShiftProgram zeroArg 0 (by decide +kernel) _ _ _
    (by decide +kernel) (short_run_unread _ _ _ 5 (by decide +kernel) ?_)
  decide +kernel

end Ceccomp
