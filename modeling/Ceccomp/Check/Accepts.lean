import Ceccomp.Check.CheckProg

/-!
What a program that `check_prog` reports nothing about looks like: every filter
has a valid opcode and is admissible under the mask the check holds there, and
the last one returns.
-/

namespace Ceccomp

theorem reported_not_clean {checked state : CheckState} (report : Reported checked state) :
    ¬ checked.Clean := by
  obtain ⟨shown, filterIdx, field, fatal, message, rfl⟩ := report
  cases fatal <;> simp [CheckState.Clean, CheckState.reportError]

theorem check_filter_cases (prog : List Filter) (pc flen : Nat) (state : CheckState) :
    ((checkFilter prog pc flen state).fatalCount = state.fatalCount ∧
      (checkFilter prog pc flen state).errorCount = state.errorCount) ∨
    Reported (checkFilter prog pc flen state) state := by
  cases fetched : prog[pc]? with
  | none => left; simp [checkFilter, fetched]
  | some f =>
      cases valid : f.insn? with
      | some insn =>
          rcases check_filter_valid prog pc flen state f insn fetched valid with
            ⟨_, same⟩ | ⟨_, report⟩
          · left; simp [same]
          · exact Or.inr report
      | none =>
          right
          have listed : (f.code.toNat > maxValidInsn || insnNameMap f.code.toNat = 0) = true := by
            by_contra absent
            obtain ⟨insn, found⟩ := (valid_code_iff f).mp absent
            rw [valid] at found
            cases found
          simp only [checkFilter, fetched]
          rw [if_pos listed]
          exact reported ..

theorem check_filter_from_dirty (enter : Entry) (prog : List Filter) (pc : Nat)
    (state : CheckState) (dirty : ¬ state.Clean) :
    ¬ (checkFilterFrom enter prog pc state).Clean := by
  rcases check_filter_cases prog pc prog.length
      { state with memValid := enter pc state.masks state.memValid } with ⟨fatal, error⟩ | report
  · intro clean
    exact dirty ⟨fatal.symm.trans clean.1, error.symm.trans clean.2⟩
  · exact reported_not_clean report

theorem check_loop_dirty (enter : Entry) (prog : List Filter) (left pc : Nat)
    (state : CheckState) (dirty : ¬ state.Clean) :
    ¬ (checkLoop (checkFilterFrom enter prog) left pc state).Clean := by
  induction left generalizing pc state with
  | zero => exact dirty
  | succ left ih =>
      have next := check_filter_from_dirty enter prog pc state dirty
      unfold checkLoop
      by_cases stop : (checkFilterFrom enter prog pc state).fatalCount > 5
      · simpa [stop] using next
      · simpa [stop] using ih (pc + 1) _ next

def Passes (enter : Entry) (prog : List Filter) (pc : Nat) : Prop :=
  ∃ insn, insnAt prog pc = some insn ∧
    insn.Admissible pc prog.length (masksAt enter prog pc).memValid

def EndsWithRet (prog : List Filter) : Prop :=
  ∃ insn, insnAt prog (prog.length - 1) = some insn ∧ (insn = .retA ∨ ∃ k, insn = .retK k)

theorem check_filter_from_passes (enter : Entry) (prog : List Filter) (pc : Nat)
    (state : CheckState) (inside : pc < prog.length)
    (masks : (Masks.mk state.masks state.memValid).entered enter pc = masksAt enter prog pc) :
    (Passes enter prog pc ∧ ∃ before : Masks,
      checkFilterFrom enter prog pc state =
        { state with masks := before.masks, memValid := before.memValid } ∧
      before.entered enter (pc + 1) = masksAt enter prog (pc + 1)) ∨
    (¬ Passes enter prog pc ∧ ¬ (checkFilterFrom enter prog pc state).Clean) := by
  have fetched : prog[pc]? = some prog[pc] := List.getElem?_eq_getElem inside
  have held : enter pc state.masks state.memValid = (masksAt enter prog pc).memValid :=
    congrArg Masks.memValid masks
  have table : state.masks = (masksAt enter prog pc).masks := congrArg Masks.masks masks
  cases valid : prog[pc].insn? with
  | none =>
      right
      have absent : insnAt prog pc = none := by simp [insnAt, fetched, valid]
      refine ⟨by simp [Passes, absent], ?_⟩
      have listed : (prog[pc].code.toNat > maxValidInsn ||
          insnNameMap prog[pc].code.toNat = 0) = true := by
        by_contra missing
        obtain ⟨insn, found⟩ := (valid_code_iff prog[pc]).mp missing
        rw [valid] at found
        cases found
      simp only [checkFilterFrom, checkFilter, fetched]
      rw [if_pos listed]
      exact reported_not_clean (reported ..)
  | some insn =>
      have here : insnAt prog pc = some insn := by simp [insnAt, fetched, valid]
      have verdict := check_filter_valid prog pc prog.length
        { state with memValid := enter pc state.masks state.memValid } prog[pc] insn fetched valid
      simp only [held] at verdict
      rcases verdict with ⟨admissible, moved⟩ | ⟨refused, report⟩
      · left
        refine ⟨⟨insn, here, admissible⟩, insn.flow pc (masksAt enter prog pc), ?_, ?_⟩
        · simp only [checkFilterFrom, held, moved, Insn.flow, ← table]
        · simp [masksAt, masksBefore, here]
      · right
        refine ⟨?_, by simpa only [checkFilterFrom, held] using reported_not_clean report⟩
        rintro ⟨other, found, admissible⟩
        rw [here] at found
        cases found
        exact refused admissible

theorem check_loop_clean (enter : Entry) (prog : List Filter) (left pc : Nat)
    (state : CheckState) (clean : state.Clean) (extent : pc + left = prog.length)
    (masks : (Masks.mk state.masks state.memValid).entered enter pc = masksAt enter prog pc) :
    (checkLoop (checkFilterFrom enter prog) left pc state).Clean ↔
      ∀ at_, pc ≤ at_ → at_ < prog.length → Passes enter prog at_ := by
  induction left generalizing pc state with
  | zero =>
      constructor
      · intro _ at_ low high; omega
      · intro _; exact clean
  | succ left ih =>
      rcases check_filter_from_passes enter prog pc state (by omega) masks with
        ⟨passes, before, moved, next⟩ | ⟨fails, dirty⟩
      · have few : ¬ (checkFilterFrom enter prog pc state).fatalCount > 5 := by
          rw [moved]
          simp [clean.1]
        unfold checkLoop
        simp only [few, ↓reduceIte]
        rw [ih (pc + 1) _ (by rw [moved]; exact clean) (by omega) (by rw [moved]; exact next)]
        constructor
        · intro rest at_ low high
          rcases Nat.eq_or_lt_of_le low with same | less
          · exact same ▸ passes
          · exact rest at_ less high
        · intro all at_ low high
          exact all at_ (by omega) high
      -- once an error is counted nothing takes it back, whether the loop goes on or stops
      · constructor
        · intro loopClean
          exfalso
          revert loopClean
          unfold checkLoop
          by_cases stop : (checkFilterFrom enter prog pc state).fatalCount > 5
          · simpa [stop] using dirty
          · simpa [stop] using check_loop_dirty enter prog left (pc + 1) _ dirty
        · intro all
          exact absurd (all pc (by omega) (by omega)) fails

theorem ret_code_iff (f : Filter) :
    (f.code = 0x16 ∨ f.code = 0x06) ↔
      ∃ insn, f.insn? = some insn ∧ (insn = .retA ∨ ∃ k, insn = .retK k) := by
  constructor
  · rintro (code | code)
    · exact ⟨.retA, by simp [Filter.insn?, code], Or.inl rfl⟩
    · exact ⟨.retK f.k, by simp [Filter.insn?, code], Or.inr ⟨f.k, rfl⟩⟩
  · rintro ⟨insn, valid, rfl | ⟨k, rfl⟩⟩
    · exact Or.inl (insn_code f _ valid)
    · exact Or.inr (insn_code f _ valid)

theorem check_prog_clean_iff (enter : Entry) (prog : List Filter) (nonempty : prog ≠ []) :
    (checkProgFrom enter prog).Clean ↔
      (∀ pc, pc < prog.length → Passes enter prog pc) ∧ EndsWithRet prog := by
  have loop := check_loop_clean enter prog prog.length 0 .start ⟨rfl, rfl⟩ (by omega) rfl
  have last : prog.getLast? = some (prog.getLast nonempty) := List.getLast?_eq_some_getLast nonempty
  have fetched : prog[prog.length - 1]? = some (prog.getLast nonempty) := by
    rw [← List.getLast?_eq_getElem?, last]
  have ends : EndsWithRet prog ↔
      ((prog.getLast nonempty).code = 0x16 ∨ (prog.getLast nonempty).code = 0x06) := by
    rw [ret_code_iff]
    simp [EndsWithRet, insnAt, fetched]
  simp only [Nat.zero_le, forall_const] at loop
  rw [ends, ← loop]
  have unfolded : checkProgFrom enter prog =
      checkLast prog (checkLoop (checkFilterFrom enter prog) prog.length 0 .start) := rfl
  rw [unfolded]
  generalize checkLoop (checkFilterFrom enter prog) prog.length 0 .start = looped
  simp only [checkLast, last]
  by_cases stop : looped.fatalCount > 5
  · have dirty : ¬ looped.Clean := fun clean => by have := clean.1; omega
    simp [stop, dirty]
  · by_cases ret : (prog.getLast nonempty).code = 0x16 ∨ (prog.getLast nonempty).code = 0x06
    · have kept : ¬ ((prog.getLast nonempty).code ≠ 0x16 ∧ (prog.getLast nonempty).code ≠ 0x06) := by
        rintro ⟨notA, notK⟩
        exact ret.elim notA notK
      simp only [stop, ↓reduceIte, kept, ret, and_true]
    · have missing : (prog.getLast nonempty).code ≠ 0x16 ∧ (prog.getLast nonempty).code ≠ 0x06 :=
        not_or.mp ret
      simp only [stop, ↓reduceIte, ret, and_false, iff_false]
      rw [if_pos missing]
      exact reported_not_clean (reported ..)

end Ceccomp
