import Ceccomp.Check.Accepts

/-!
Runs of programs that `check_prog` accepts.
-/

namespace Ceccomp

open Machine (Next)

def Insn.successors (pc : Nat) (insn : Insn) : List Nat :=
  match insn with
  | .ja _ | .jmp .. | .retA | .retK _ => insn.targets pc
  | .ldAbs _ | .ldLen _ | .ldImm .. | .ldMem .. | .st .. | .alu .. | .neg | .tax | .txa => [pc + 1]

theorem exec_successor (stale : Nat → Word) (data : SeccompData) (pc : Nat) (regs : Regs)
    (insn : Insn) (next : BpfState) (moved : insn.exec stale data pc regs = .go next) :
    next.pc ∈ insn.successors pc := by
  cases insn with
  | ldAbs k =>
      simp only [Insn.exec] at moved
      split at moved
      · cases moved
        simp [Insn.successors]
      · cases moved
  | ldMem dst k | st src k | alu op src =>
      simp only [Insn.exec] at moved
      split at moved
      · cases moved <;> simp [Insn.successors]
      · cases moved <;> simp [Insn.successors]
  | jmp op src jt jf =>
      cases moved
      simp only [Insn.successors, Insn.targets, List.mem_cons, List.not_mem_nil, or_false]
      split
      · exact Or.inl rfl
      · exact Or.inr rfl
  | retA | retK k => cases moved
  | ldLen dst | ldImm dst k | neg | tax | txa | ja k =>
      cases moved
      simp [Insn.successors, Insn.targets]

def Insn.followers (pc : Nat) (insn : Insn) : List Nat :=
  match insn with
  | .retA | .retK _ => [pc + 1]
  | _ => insn.successors pc

theorem successors_follow (insn : Insn) (pc next : Nat) (member : next ∈ insn.successors pc) :
    next ∈ insn.followers pc := by
  cases insn with
  | retA | retK k => simp [Insn.successors, Insn.targets] at member
  | _ => exact member

theorem targets_ahead (insn : Insn) (pc next : Nat) (member : next ∈ insn.targets pc) :
    pc < next := by
  cases insn <;> simp [Insn.targets] at member <;> omega

theorem successors_ahead (insn : Insn) (pc next : Nat) (member : next ∈ insn.successors pc) :
    pc < next := by
  cases insn <;> simp [Insn.successors, Insn.targets] at member <;> omega

theorem exec_mem (stale : Nat → Word) (data : SeccompData) (pc : Nat) (regs : Regs)
    (insn : Insn) (next : BpfState) (moved : insn.exec stale data pc regs = .go next) :
    (∀ slot, (regs.mem slot).isSome → (next.regs.mem slot).isSome) ∧
    (∀ src k, insn = .st src k → (next.regs.mem k.toNat).isSome) := by
  have setMem (value : Word) (dst : Reg) : (regs.set value dst).mem = regs.mem := by
    cases dst <;> rfl
  cases insn with
  | st src k =>
      simp only [Insn.exec] at moved
      split at moved
      · cases moved
        constructor
        · intro slot written
          by_cases same : slot = k.toNat
          · simp [Regs.store, same]
          · simpa [Regs.store, same] using written
        · rintro src' k' ⟨⟩
          simp [Regs.store]
      · cases moved
  | ldAbs k | ldMem dst k | alu op src =>
      simp only [Insn.exec] at moved
      split at moved
      · cases moved <;> exact ⟨fun slot written => by simpa [setMem] using written, nofun⟩
      · cases moved <;> exact ⟨fun slot written => by simpa [setMem] using written, nofun⟩
  | retA | retK k => cases moved
  | ldLen dst | ldImm dst k | neg | tax | txa | ja k | jmp op src jt jf =>
      cases moved
      exact ⟨fun slot written => by simpa [setMem] using written, nofun⟩

theorem exec_not_stuck (stale : Nat → Word) (data : SeccompData) (pc flen : Nat) (regs : Regs)
    (memValid : BitVec 16) (insn : Insn) (admissible : insn.Admissible pc flen memValid) :
    insn.exec stale data pc regs ≠ .stop .stuck := by
  cases insn with
  | ldAbs k =>
      obtain ⟨small, aligned⟩ := admissible
      have inside : k.toNat / 4 < data.words.length := by
        simp only [SeccompData.words, List.length_cons, List.length_nil]
        simp only [seccompDataSize] at small
        omega
      simp [Insn.exec, SeccompData.load, aligned, List.getElem?_eq_getElem inside]
  | ldMem dst k => simp [Insn.exec, admissible.1]
  | st src k => simp [Insn.exec, show k.toNat < bpfMemWords from admissible]
  | alu op src =>
      simp only [Insn.exec]
      split <;> simp
  | ldLen dst | ldImm dst k | neg | tax | txa | ja k | jmp op src jt jf | retA | retK k =>
      simp [Insn.exec]

theorem admissible_successor (pc flen : Nat) (memValid : BitVec 16) (insn : Insn) (next : Nat)
    (admissible : insn.Admissible pc flen memValid) (jump : next ∈ insn.targets pc) :
    next < flen := by
  cases insn with
  | ja k =>
      simp only [Insn.targets, List.mem_singleton] at jump
      simp only [Insn.Admissible] at admissible
      omega
  | jmp op src jt jf =>
      simp only [Insn.targets, List.mem_cons, List.not_mem_nil, or_false] at jump
      have near := admissible.1
      have near' := admissible.2
      omega
  | _ => simp [Insn.targets] at jump

/-- A program no check of `check_prog` objects to. -/
def CheckClean (prog : List Filter) : Prop := (checkProgState prog).Clean

/-- It also passes when every filter first intersects `mem_valid` with the mask
its incoming jumps recorded, as the kernel does. -/
def MergedClean (prog : List Filter) : Prop := (checkProgFrom merged prog).Clean

theorem check_clean_passes (prog : List Filter) (nonempty : prog ≠ []) (clean : CheckClean prog) :
    (∀ pc, pc < prog.length → Passes carried prog pc) ∧ EndsWithRet prog :=
  (check_prog_clean_iff carried prog nonempty).mp clean

theorem clean_successor (enter : Entry) (prog : List Filter)
    (passes : ∀ pc, pc < prog.length → Passes enter prog pc) (ends : EndsWithRet prog)
    (pc : Nat) (insn : Insn) (inside : pc < prog.length) (here : insnAt prog pc = some insn)
    (next : Nat) (member : next ∈ insn.successors pc) : next < prog.length := by
  obtain ⟨other, found, admissible⟩ := passes pc inside
  rw [here] at found
  cases found
  -- falling through leaves the program only behind the last filter, which returns
  have falls (step : insn.successors pc = [pc + 1]) : next < prog.length := by
    rw [step, List.mem_singleton] at member
    rcases Nat.lt_or_ge (pc + 1) prog.length with more | final
    · omega
    · obtain ⟨last, there, ret⟩ := ends
      have same : prog.length - 1 = pc := by omega
      rw [same, here] at there
      cases there
      rcases ret with rfl | ⟨k, rfl⟩ <;> simp [Insn.successors, Insn.targets] at step
  cases insn with
  | ja k | jmp op src jt jf =>
      exact admissible_successor pc prog.length _ _ next admissible member
  | retA | retK k => simp [Insn.successors, Insn.targets] at member
  | ldAbs k | ldLen dst | ldImm dst k | ldMem dst k | st src k | alu op src | neg | tax | txa =>
      exact falls rfl

theorem clean_runs_inside (stale : Nat → Word) (prog : List Filter) (data : SeccompData)
    (nonempty : prog ≠ []) (clean : CheckClean prog) (n : Nat) (state : BpfState)
    (reached : Machine.after (bpfStep stale prog data) .initial n = some state) :
    state.pc < prog.length := by
  obtain ⟨passes, ends⟩ := check_clean_passes prog nonempty clean
  refine Machine.after_invariant _ (fun state => state.pc < prog.length) ?_ _ ?_ n state reached
  · intro before next inside moved
    obtain ⟨insn, here, exec⟩ := bpf_step_go stale prog data before next moved
    exact clean_successor carried prog passes ends before.pc insn inside here next.pc
      (exec_successor stale data before.pc before.regs insn next exec)
  · exact List.length_pos_iff.mpr nonempty

def StopsAt (prog : List Filter) (state : BpfState) : Prop :=
  insnAt prog state.pc = some .retA ∨ (∃ k, insnAt prog state.pc = some (.retK k)) ∨
    (insnAt prog state.pc = some (.alu .div .x) ∧ state.regs.X = 0)

theorem clean_run_stops (stale : Nat → Word) (prog : List Filter) (data : SeccompData)
    (nonempty : prog ≠ []) (clean : CheckClean prog) :
    ∃ n last value, n < prog.length ∧
      Machine.after (bpfStep stale prog data) .initial n = some last ∧
      bpfStep stale prog data last = .stop (.ret value) ∧ StopsAt prog last := by
  obtain ⟨passes, ends⟩ := check_clean_passes prog nonempty clean
  have length := List.length_pos_iff.mpr nonempty
  obtain ⟨answer, found⟩ := Machine.result_of_rank (bpfStep stale prog data)
    (fun state => state.pc < prog.length) (fun state => prog.length - 1 - state.pc)
    (by
      intro before next inside moved
      obtain ⟨insn, here, exec⟩ := bpf_step_go stale prog data before next moved
      have member := exec_successor stale data before.pc before.regs insn next exec
      have bound := clean_successor carried prog passes ends before.pc insn inside here next.pc member
      have ahead := successors_ahead insn before.pc next.pc member
      exact ⟨bound, by omega⟩)
    prog.length BpfState.initial length (by simp only [BpfState.initial]; omega)
  obtain ⟨n, last, bound, reached, stopped⟩ := Machine.result_last _ _ _ _ found
  have inside := clean_runs_inside stale prog data nonempty clean n last reached
  obtain ⟨insn, here, admissible⟩ := passes last.pc inside
  rw [bpf_step_insn stale prog data last insn here] at stopped
  have notStuck := exec_not_stuck stale data last.pc prog.length last.regs _ insn admissible
  cases answer with
  | stuck => exact absurd stopped notStuck
  | ret value =>
      refine ⟨n, last, value, bound, reached, ?_, ?_⟩
      · rw [bpf_step_insn stale prog data last insn here, stopped]
      · cases insn with
        | retA => exact Or.inl here
        | retK k => exact Or.inr (Or.inl ⟨k, here⟩)
        | alu op src =>
            simp only [Insn.exec] at stopped
            split at stopped
            · next divides =>
                obtain ⟨rfl, zero⟩ := divides
                cases src with
                | x => exact Or.inr (Or.inr ⟨here, zero⟩)
                | k value =>
                    -- a zero immediate divisor is reported
                    exact absurd (by simpa [Src.eval] using zero)
                      (show value ≠ 0 from fun same => admissible (by simp [same]))
            · cases stopped
        | ldAbs k | ldMem dst k | st src k =>
            simp only [Insn.exec] at stopped
            split at stopped <;> cases stopped
        | ldLen dst | ldImm dst k | neg | tax | txa | ja k | jmp op src jt jf => cases stopped

theorem clean_run_returns (stale : Nat → Word) (prog : List Filter) (data : SeccompData)
    (nonempty : prog ≠ []) (clean : CheckClean prog) :
    ∃ value, bpfRun stale prog data = some value := by
  obtain ⟨n, last, value, bound, reached, stopped, _⟩ :=
    clean_run_stops stale prog data nonempty clean
  have ended := Machine.result_mono _ _ prog.length _ _
    (Machine.result_of_after _ _ n last _ reached stopped) (by omega)
  exact ⟨value, by rw [bpfRun, ended]⟩

theorem bit16_set (memValid : BitVec 16) (slot : Nat) (set : memValid &&& bit16 slot ≠ 0#16) :
    memValid.getLsbD slot = true := by
  by_contra clear
  apply set
  have power : bit16 slot = BitVec.twoPow 16 slot := by simp [bit16, BitVec.twoPow]
  rw [power, BitVec.and_twoPow, if_neg clear]

theorem bit16_named (memValid : BitVec 16) (slot : Nat) (small : slot < 16)
    (set : memValid.getLsbD slot = true) : memValid &&& bit16 slot ≠ 0#16 := by
  intro zero
  have bit := congrArg (fun mask => BitVec.getLsbD mask slot) zero
  have power : bit16 slot = BitVec.twoPow 16 slot := by simp [bit16, BitVec.twoPow]
  simp only [power, BitVec.getLsbD_and, set, BitVec.getLsbD_twoPow] at bit
  simp [small] at bit

theorem or_bit16 (memValid : BitVec 16) (slot other : Nat)
    (set : (memValid ||| bit16 slot).getLsbD other = true) :
    memValid.getLsbD other = true ∨ other = slot := by
  rw [BitVec.getLsbD_or, Bool.or_eq_true] at set
  rcases set with before | added
  · exact Or.inl before
  · have power : bit16 slot = BitVec.twoPow 16 slot := by simp [bit16, BitVec.twoPow]
    rw [power, BitVec.getLsbD_twoPow] at added
    simp only [Bool.and_eq_true, decide_eq_true_eq] at added
    exact Or.inr added.2.symm

def maskSends (prog : List Filter) (pc : Nat) : List (Nat × BitVec 16) :=
  match insnAt prog pc with
  | none => []
  | some insn => (insn.targets pc).map fun next => (next, (masksAt merged prog pc).memValid)

theorem merged_masks_move (prog : List Filter) (pc : Nat) :
    (masksBefore merged prog (pc + 1)).masks =
      Forward.absorb (· &&& ·) (masksBefore merged prog pc).masks (maskSends prog pc) := by
  simp only [masksBefore, maskSends]
  cases insnAt prog pc <;> rfl

/-- Every mask a filter enters with under the merged check is covered by what each
instruction that can lead there knows, plus the slot that instruction stores. -/
theorem merged_mask_covered (prog : List Filter) (pc : Nat) (insn : Insn)
    (here : insnAt prog pc = some insn) (next : Nat) (member : next ∈ insn.followers pc)
    (slot : Nat) (set : (masksAt merged prog next).memValid.getLsbD slot = true) :
    (masksAt merged prog pc).memValid.getLsbD slot = true ∨
      ∃ src k, insn = .st src k ∧ slot = k.toNat := by
  have both : (masksBefore merged prog next).memValid.getLsbD slot = true ∧
      ((masksBefore merged prog next).masks next).getLsbD slot = true := by
    simpa only [masksAt, Masks.entered, merged, BitVec.getLsbD_and, Bool.and_eq_true] using set
  have fall (step : next = pc + 1) :
      (insn.validAfter (masksAt merged prog pc).memValid).getLsbD slot = true := by
    subst step
    simpa only [masksAt, masksBefore, here, Insn.flow] using both.1
  have jump (target : next ∈ insn.targets pc) (ahead : pc < next) :
      (masksAt merged prog pc).memValid.getLsbD slot = true := by
    have received := Forward.table_received (· &&& ·)
      (fun n => (masksBefore merged prog n).masks) (maskSends prog)
      (fun n idx _ => congrFun (merged_masks_move prog n) idx)
      (fun known sent => known.getLsbD slot = true → sent.getLsbD slot = true)
      (fun old new => by simp) (fun old new known covers => by simp; exact fun h _ => covers h)
      pc next (masksAt merged prog pc).memValid ahead (by simp [maskSends, here, target])
    exact received both.2
  cases insn with
  | ja k => exact Or.inl (jump member (targets_ahead (.ja k) pc next member))
  | jmp op src jt jf => exact Or.inl (jump member (targets_ahead (.jmp op src jt jf) pc next member))
  | st src k =>
      rcases or_bit16 _ _ _ (fall (List.mem_singleton.mp member)) with before | stored
      · exact Or.inl before
      · exact Or.inr ⟨src, k, rfl, stored⟩
  | ldAbs k | ldLen dst | ldImm dst k | ldMem dst k | alu op src | neg | tax | txa | retA
  | retK k => exact Or.inl (fall (List.mem_singleton.mp member))

/-- Every slot the merged mask names at the state's filter has been written. -/
def SlotsWritten (prog : List Filter) (state : BpfState) : Prop :=
  ∀ slot, (masksAt merged prog state.pc).memValid.getLsbD slot = true →
    (state.regs.mem slot).isSome

theorem slots_written_initial (prog : List Filter) : SlotsWritten prog .initial := by
  intro slot set
  simp [BpfState.initial, masksAt, masksBefore, Masks.start, Masks.entered, merged] at set

/-- The run stays inside the program, only meets valid opcodes, only names the
sixteen scratch slots, and ends within `len` steps where a filter may end. -/
structure RunBounded (stale : Nat → Word) (prog : List Filter) (data : SeccompData) : Prop where
  inside : ∀ n state, Machine.after (bpfStep stale prog data) .initial n = some state →
    state.pc < prog.length
  valid : ∀ n state, Machine.after (bpfStep stale prog data) .initial n = some state →
    ∃ insn, insnAt prog state.pc = some insn
  slots : ∀ n state, Machine.after (bpfStep stale prog data) .initial n = some state →
    ∀ dst k, insnAt prog state.pc = some (.ldMem dst k) → k.toNat < bpfMemWords
  stops : ∃ n last value, n < prog.length ∧
    Machine.after (bpfStep stale prog data) .initial n = some last ∧
    bpfStep stale prog data last = .stop (.ret value) ∧ StopsAt prog last

/-- Every scratch slot the run reads was written earlier on that very run. -/
def ReadsWritten (stale : Nat → Word) (prog : List Filter) (data : SeccompData) : Prop :=
  ∀ n state, Machine.after (bpfStep stale prog data) .initial n = some state →
    ∀ dst k, insnAt prog state.pc = some (.ldMem dst k) → (state.regs.mem k.toNat).isSome

theorem clean_run_bounded (stale : Nat → Word) (prog : List Filter) (data : SeccompData)
    (nonempty : prog ≠ []) (clean : CheckClean prog) : RunBounded stale prog data := by
  have passes := (check_clean_passes prog nonempty clean).1
  have inside := clean_runs_inside stale prog data nonempty clean
  refine ⟨inside, ?_, ?_, clean_run_stops stale prog data nonempty clean⟩
  · intro n state reached
    obtain ⟨insn, here, _⟩ := passes state.pc (inside n state reached)
    exact ⟨insn, here⟩
  · intro n state reached dst k here
    obtain ⟨insn, found, admissible⟩ := passes state.pc (inside n state reached)
    rw [here] at found
    cases found
    exact admissible.1

def Insn.stores : Insn → List Nat
  | .st _ k => [k.toNat]
  | _ => []

/-- There is a path from the first filter to `pc` along the edges, and the filters on it store
these slots. -/
inductive PathTo (edges : Nat → Insn → List Nat) (prog : List Filter) : Nat → List Nat → Prop
  | first : PathTo edges prog 0 []
  | step {pc next : Nat} {stored : List Nat} {insn : Insn} (path : PathTo edges prog pc stored)
      (here : insnAt prog pc = some insn) (member : next ∈ edges pc insn) :
      PathTo edges prog next (insn.stores ++ stored)

def StoredFirst (edges : Nat → Insn → List Nat) (prog : List Filter) (pc slot : Nat) : Prop :=
  ∀ stored, PathTo edges prog pc stored → slot ∈ stored

/-- Every load the run reaches is one before which all paths of the program store the slot,
whatever its jumps compare. -/
def LoadsCovered (stale : Nat → Word) (prog : List Filter) (data : SeccompData) : Prop :=
  ∀ n state, Machine.after (bpfStep stale prog data) .initial n = some state →
    ∀ dst k, insnAt prog state.pc = some (.ldMem dst k) →
      StoredFirst Insn.successors prog state.pc k.toNat

theorem run_path (stale : Nat → Word) (prog : List Filter) (data : SeccompData) (n : Nat)
    (state : BpfState)
    (reached : Machine.after (bpfStep stale prog data) .initial n = some state) :
    ∃ stored, PathTo Insn.successors prog state.pc stored ∧
      ∀ slot ∈ stored, (state.regs.mem slot).isSome := by
  refine Machine.after_invariant (bpfStep stale prog data)
    (fun state => ∃ stored, PathTo Insn.successors prog state.pc stored ∧
      ∀ slot ∈ stored, (state.regs.mem slot).isSome) ?_ _ ⟨[], .first, by simp⟩ n state reached
  rintro before next ⟨stored, path, held⟩ moved
  obtain ⟨insn, here, exec⟩ := bpf_step_go stale prog data before next moved
  obtain ⟨kept, written⟩ := exec_mem stale data before.pc before.regs insn next exec
  have member := exec_successor stale data before.pc before.regs insn next exec
  refine ⟨_, .step path here member, ?_⟩
  intro slot there
  rcases List.mem_append.mp there with own | early
  · cases insn with
    | st src k =>
        rw [List.mem_singleton.mp own]
        exact written src k rfl
    | ldAbs _ | ldLen _ | ldImm _ _ | ldMem _ _ | alu _ _ | neg | tax | txa | ja _ | jmp _ _ _ _
    | retA | retK _ => cases own
  · exact kept slot (held slot early)

theorem covered_reads_written (stale : Nat → Word) (prog : List Filter) (data : SeccompData)
    (covered : LoadsCovered stale prog data) : ReadsWritten stale prog data := by
  intro n state reached dst k here
  obtain ⟨stored, path, held⟩ := run_path stale prog data n state reached
  exact held _ (covered n state reached dst k here stored path)

theorem merged_mask_stored {prog : List Filter} {pc : Nat} {stored : List Nat}
    (path : PathTo Insn.followers prog pc stored) (slot : Nat)
    (set : (masksAt merged prog pc).memValid.getLsbD slot = true) : slot ∈ stored := by
  induction path with
  | first => simp [masksAt, masksBefore, Masks.start, Masks.entered, merged] at set
  | step path here member ih =>
      rcases merged_mask_covered prog _ _ here _ member slot set with early | ⟨src, k, rfl, rfl⟩
      · exact List.mem_append_right _ (ih early)
      · exact List.mem_append_left _ List.mem_cons_self

theorem successors_path {prog : List Filter} {pc : Nat} {stored : List Nat}
    (path : PathTo Insn.successors prog pc stored) : PathTo Insn.followers prog pc stored := by
  induction path with
  | first => exact .first
  | step path here member ih => exact .step ih here (successors_follow _ _ _ member)

theorem full_mask (slot : Nat) (small : slot < 16) : (0xffff#16).getLsbD slot = true := by
  have ones : 0xffff#16 = BitVec.allOnes 16 := rfl
  rw [ones, BitVec.getLsbD_allOnes, decide_eq_true small]

/-- For a slot that the merged mask does not name there is a path that does not store it. -/
theorem path_without (prog : List Filter) (valid : ∀ pc < prog.length, ∃ insn, insnAt prog pc = some insn)
    (slot : Nat) (small : slot < 16) (pc : Nat) (inside : pc ≤ prog.length)
    (clear : (masksAt merged prog pc).memValid.getLsbD slot = false) :
    ∃ stored, PathTo Insn.followers prog pc stored ∧ slot ∉ stored := by
  induction pc using Nat.strongRecOn with
  | ind pc ih =>
      have both : (masksBefore merged prog pc).memValid.getLsbD slot = false ∨
          ((masksBefore merged prog pc).masks pc).getLsbD slot = false := by
        simpa only [masksAt, Masks.entered, merged, BitVec.getLsbD_and, Bool.and_eq_false_iff]
          using clear
      rcases both with fallen | sent
      · cases pc with
        | zero => exact ⟨[], .first, List.not_mem_nil⟩
        | succ pc =>
            obtain ⟨insn, here⟩ := valid pc inside
            have after : (insn.validAfter (masksAt merged prog pc).memValid).getLsbD slot = false := by
              simpa only [masksBefore, here, Insn.flow, masksAt] using fallen
            -- an instruction that falls through, and does not store the slot
            have goes (next : pc + 1 ∈ insn.followers pc)
                (before : (masksAt merged prog pc).memValid.getLsbD slot = false)
                (other : slot ∉ insn.stores) :
                ∃ stored, PathTo Insn.followers prog (pc + 1) stored ∧ slot ∉ stored := by
              obtain ⟨stored, path, missing⟩ := ih pc (Nat.lt_succ_self pc) (Nat.le_of_lt inside) before
              refine ⟨_, .step path here next, ?_⟩
              rw [List.mem_append, not_or]
              exact ⟨other, missing⟩
            cases insn with
            | ja k | jmp op src jt jf =>
                have known : (0xffff#16).getLsbD slot = false := after
                rw [full_mask slot small] at known
                cases known
            | st src k =>
                simp only [Insn.validAfter, BitVec.getLsbD_or, Bool.or_eq_false_iff] at after
                apply goes List.mem_cons_self after.1
                intro same
                rw [List.mem_singleton.mp same] at after small
                simp [bit16, small] at after
            | ldAbs k | ldLen dst | ldImm dst k | ldMem dst k | alu op src | neg | tax | txa | retA
            | retK k => exact goes List.mem_cons_self after List.not_mem_nil
      · -- a jump to the instruction lacked the slot
        have blamed := Forward.table_blame (· &&& ·) (fun n => (masksBefore merged prog n).masks)
          (maskSends prog) (fun n idx _ => congrFun (merged_masks_move prog n) idx)
          (fun mask => mask.getLsbD slot = true)
          (fun old new known own => by simp [known, own]) pc (by simp [sent])
        rcases blamed with none_ | ⟨n, less, mask, member, lacks⟩
        · exact absurd (full_mask slot small) none_
        · unfold maskSends at member
          cases here : insnAt prog n with
          | none =>
              rw [here] at member
              cases member
          | some insn =>
              rw [here] at member
              obtain ⟨target, there, same⟩ := List.mem_map.mp member
              cases same
              obtain ⟨stored, path, missing⟩ := ih n less (by omega) (by simpa using lacks)
              cases insn with
              | ja k => exact ⟨stored, .step path here there, missing⟩
              | jmp op src jt jf => exact ⟨stored, .step path here there, missing⟩
              | ldAbs _ | ldLen _ | ldImm _ _ | ldMem _ _ | st _ _ | alu _ _ | neg | tax | txa | retA
              | retK _ => cases there

/-- Every load is one before which all paths store the slot, a `return` being followed by the
next filter as well. -/
def LoadsStored (prog : List Filter) : Prop :=
  ∀ pc dst k, insnAt prog pc = some (.ldMem dst k) → StoredFirst Insn.followers prog pc k.toNat

theorem merged_clean_iff (prog : List Filter) (nonempty : prog ≠ []) (clean : CheckClean prog) :
    MergedClean prog ↔ LoadsStored prog := by
  obtain ⟨passes, ends⟩ := check_clean_passes prog nonempty clean
  have within (pc : Nat) (insn : Insn) (here : insnAt prog pc = some insn) : pc < prog.length := by
    by_contra outside
    have none_ : prog[pc]? = none := List.getElem?_eq_none_iff.mpr (Nat.le_of_not_lt outside)
    simp [insnAt, none_] at here
  unfold MergedClean
  rw [check_prog_clean_iff merged prog nonempty]
  constructor
  · rintro ⟨merges, _⟩ pc dst k here stored path
    obtain ⟨insn, found, admissible⟩ := merges pc (within pc _ here)
    rw [here] at found
    cases found
    exact merged_mask_stored path k.toNat (bit16_set _ _ admissible.2)
  · intro loads
    refine ⟨fun pc inside => ?_, ends⟩
    obtain ⟨insn, here, admissible⟩ := passes pc inside
    refine ⟨insn, here, ?_⟩
    cases insn with
    | ldMem dst k =>
        have small : k.toNat < 16 := admissible.1
        refine ⟨small, ?_⟩
        cases set : (masksAt merged prog pc).memValid.getLsbD k.toNat with
        | true => exact bit16_named _ _ small set
        | false =>
            obtain ⟨stored, path, missing⟩ := path_without prog
              (fun pc inside => (passes pc inside).imp fun insn found => found.1)
              k.toNat small pc (Nat.le_of_lt inside) set
            exact absurd (loads pc dst k here stored path) missing
    | alu op src => cases op <;> cases src <;> exact admissible
    | ldAbs _ | ldLen _ | ldImm _ _ | st _ _ | neg | tax | txa | ja _ | jmp _ _ _ _ | retA
    | retK _ => exact admissible

theorem merged_loads_covered (stale : Nat → Word) (prog : List Filter) (data : SeccompData)
    (nonempty : prog ≠ []) (clean : CheckClean prog) (mergedClean : MergedClean prog) :
    LoadsCovered stale prog data := by
  have passes := ((check_prog_clean_iff merged prog nonempty).mp mergedClean).1
  intro n state reached dst k here stored path
  obtain ⟨insn, found, admissible⟩ :=
    passes state.pc (clean_runs_inside stale prog data nonempty clean n state reached)
  rw [here] at found
  cases found
  exact merged_mask_stored (successors_path path) k.toNat (bit16_set _ _ admissible.2)

theorem merged_reads_written (stale : Nat → Word) (prog : List Filter) (data : SeccompData)
    (nonempty : prog ≠ []) (clean : CheckClean prog) (mergedClean : MergedClean prog) :
    ReadsWritten stale prog data :=
  covered_reads_written stale prog data
    (merged_loads_covered stale prog data nonempty clean mergedClean)

theorem reads_written_stale (stale other : Nat → Word) (prog : List Filter) (data : SeccompData)
    (reads : ReadsWritten stale prog data) : bpfRun stale prog data = bpfRun other prog data := by
  have same (n : Nat) (state : BpfState)
      (reached : Machine.after (bpfStep stale prog data) .initial n = some state) :
      bpfStep stale prog data state = bpfStep other prog data state := by
    cases here : insnAt prog state.pc with
    | none =>
        unfold insnAt at here
        unfold bpfStep
        cases fetched : prog[state.pc]? with
        | none => rfl
        | some f =>
            have invalid : f.insn? = none := by simpa [fetched] using here
            simp [invalid]
    | some insn =>
        rw [bpf_step_insn _ _ _ _ insn here, bpf_step_insn _ _ _ _ insn here]
        cases insn with
        | ldMem dst k =>
            obtain ⟨value, written⟩ := Option.isSome_iff_exists.mp (reads n state reached dst k here)
            simp [Insn.exec, written]
        | _ => rfl
  unfold bpfRun
  rw [Machine.result_congr _ _ _ same]

theorem valid_after_mono (insn : Insn) (less more : BitVec 16)
    (le : ∀ slot, less.getLsbD slot = true → more.getLsbD slot = true) (slot : Nat)
    (set : (insn.validAfter less).getLsbD slot = true) :
    (insn.validAfter more).getLsbD slot = true := by
  cases insn with
  | st src k =>
      simp only [Insn.validAfter, BitVec.getLsbD_or, Bool.or_eq_true] at set ⊢
      exact set.imp_left (le slot)
  | ja k | jmp op src jt jf => exact set
  | _ => exact le slot set

theorem admissible_mono (pc flen : Nat) (insn : Insn) (less more : BitVec 16)
    (le : ∀ slot, less.getLsbD slot = true → more.getLsbD slot = true)
    (admissible : insn.Admissible pc flen less) : insn.Admissible pc flen more := by
  cases insn with
  | ldMem dst k =>
      have known := le k.toNat (bit16_set less k.toNat admissible.2)
      exact ⟨admissible.1, bit16_named more k.toNat admissible.1 known⟩
  | alu op src => cases op <;> cases src <;> exact admissible
  | _ => exact admissible

/-- Along the filters, the kernel's mask never knows more slots than `check_prog`'s. -/
theorem merged_below_carried (prog : List Filter) (pc slot : Nat)
    (set : (masksAt merged prog pc).memValid.getLsbD slot = true) :
    (masksAt carried prog pc).memValid.getLsbD slot = true := by
  have enter (n slot : Nat) (set : (masksAt merged prog n).memValid.getLsbD slot = true) :
      (masksBefore merged prog n).memValid.getLsbD slot = true := by
    simp only [masksAt, Masks.entered, merged, BitVec.getLsbD_and, Bool.and_eq_true] at set
    exact set.1
  have before (n : Nat) : ∀ slot, (masksBefore merged prog n).memValid.getLsbD slot = true →
      (masksBefore carried prog n).memValid.getLsbD slot = true := by
    induction n with
    | zero => exact fun _ set => set
    | succ n ih =>
        intro slot set
        simp only [masksBefore] at set ⊢
        cases here : insnAt prog n with
        | none => exact ih slot (by simpa [here] using set)
        | some insn =>
            simp only [here] at set ⊢
            exact valid_after_mono insn _ _ (fun s known => ih s (enter n s known)) slot set
  exact before pc slot (enter pc slot set)

theorem merged_clean_check (prog : List Filter) (nonempty : prog ≠ []) (clean : MergedClean prog) :
    CheckClean prog := by
  obtain ⟨passes, ends⟩ := (check_prog_clean_iff merged prog nonempty).mp clean
  refine (check_prog_clean_iff carried prog nonempty).mpr ⟨fun pc inside => ?_, ends⟩
  obtain ⟨insn, here, admissible⟩ := passes pc inside
  exact ⟨insn, here, admissible_mono pc _ insn _ _ (merged_below_carried prog pc) admissible⟩

/-- Every accepted program runs inside its bounds and stops. That it only reads
scratch slots it has written holds for the runs that load a slot only where every path of
the program stores it first: `check_filter` records the masks of the jumps to a filter, but
never intersects them with `mem_valid`. Where they are intersected, no program passes that has
a run of another kind. -/
theorem accepted_run_safe (stale : Nat → Word) (prog : List Filter) (data : SeccompData)
    (nonempty : prog ≠ []) (clean : CheckClean prog) :
    RunBounded stale prog data ∧
      (LoadsCovered stale prog data → ReadsWritten stale prog data) ∧
      (MergedClean prog → LoadsCovered stale prog data) :=
  ⟨clean_run_bounded stale prog data nonempty clean, covered_reads_written stale prog data,
    merged_loads_covered stale prog data nonempty clean⟩

/-- `goto` next, load `mem[0]`, return it: accepted, although nothing is stored. -/
def loadBehindJump : List Filter := [⟨0x05, 0, 0, 0⟩, ⟨0x60, 0, 0, 0⟩, ⟨0x16, 0, 0, 0⟩]

def zeroData : SeccompData := { nr := 0, arch := 0, instructionPointer := 0, args := fun _ => 0 }

theorem load_behind_jump_unsafe :
    ¬ ∀ (stale : Nat → Word) (prog : List Filter) (data : SeccompData), prog ≠ [] →
      CheckClean prog → RunBounded stale prog data ∧ ReadsWritten stale prog data := by
  intro claim
  have clean : CheckClean loadBehindJump := ⟨by decide, by decide⟩
  have reads := (claim (fun _ => 0) loadBehindJump zeroData (by decide) clean).2
  have unwritten := reads 1 ⟨1, Regs.initial⟩ rfl .A 0 rfl
  simp [Regs.initial] at unwritten

/-- Load the arch, store it, jump either way, load it back, return it. -/
def storeThenLoad : List Filter :=
  [⟨0x20, 0, 0, 4⟩, ⟨0x02, 0, 0, 3⟩, ⟨0x15, 0, 1, 5⟩, ⟨0x60, 0, 0, 3⟩, ⟨0x16, 0, 0, 0⟩]

theorem accepted_run_safe_store_load :
    RunBounded (fun _ => 7) storeThenLoad zeroData ∧ ReadsWritten (fun _ => 7) storeThenLoad zeroData := by
  have clean : CheckClean storeThenLoad := ⟨by decide, by decide⟩
  obtain ⟨bounded, reads, covers⟩ :=
    accepted_run_safe (fun _ => 7) storeThenLoad zeroData (by decide) clean
  exact ⟨bounded, reads (covers ⟨by decide, by decide⟩)⟩

end Ceccomp
