import Ceccomp.Ebpf.Meaning

/-!
Running a program and its recovered filters side by side. One step of the
recovered filters answers one step of the program, or two where a JA or
`RET A` was folded away.
-/

namespace Ceccomp

open Compact (span)
open Machine (Next)

theorem folded_exec (stale : Nat → Word) (data : SeccompData) (c p : Nat) (regs : Regs) (insn : Insn)
    (still : insn.isJa = false) (other : ∀ op src jt jf, insn ≠ .jmp op src jt jf) :
    (∀ next, insn.exec stale data c regs = .go next → next.pc = c + 1 ∧
      (insn.folded false).exec stale data p regs = .go ⟨p + 1, next.regs⟩) ∧
    (∀ answer, insn.exec stale data c regs = .stop answer →
      (insn.folded false).exec stale data p regs = .stop answer) := by
  -- An instruction either goes on or stops, and does the same wherever it stands.
  constructor
  · intro next moved
    cases insn with
    | ja k => cases still
    | jmp op src jt jf => exact absurd rfl (other op src jt jf)
    | ldAbs k =>
        simp only [Insn.folded, Insn.exec] at moved ⊢
        cases loaded : data.load k.toNat with
        | none =>
            rw [loaded] at moved
            cases moved
        | some value =>
            rw [loaded] at moved
            cases moved
            exact ⟨rfl, rfl⟩
    | ldImm dst k =>
        cases moved
        by_cases len : k = seccompDataLen
        · subst len
          cases dst <;> simp [Insn.folded, Insn.exec]
        · cases dst <;> simp [Insn.folded, Insn.exec, len]
    | ldMem dst k | st src k =>
        simp only [Insn.folded, Insn.exec] at moved ⊢
        split at moved
        · cases moved
          simp [*]
        · cases moved
    | alu op src =>
        simp only [Insn.folded, Insn.exec] at moved ⊢
        by_cases byZero : op = .div ∧ src.eval regs = 0
        · rw [if_pos byZero] at moved
          cases moved
        · rw [if_neg byZero] at moved ⊢
          cases moved
          exact ⟨rfl, rfl⟩
    | ldLen dst =>
        cases moved
        cases dst <;> exact ⟨rfl, rfl⟩
    | neg | tax | txa =>
        cases moved
        exact ⟨rfl, rfl⟩
    | retA | retK k => cases moved
  · intro answer stopped
    cases insn with
    | ja k => cases still
    | jmp op src jt jf => exact absurd rfl (other op src jt jf)
    | ldAbs k =>
        simp only [Insn.folded, Insn.exec] at stopped ⊢
        cases loaded : data.load k.toNat with
        | none => rwa [loaded] at stopped
        | some value =>
            rw [loaded] at stopped
            cases stopped
    | ldMem dst k | st src k =>
        simp only [Insn.folded, Insn.exec] at stopped ⊢
        split at stopped
        · cases stopped
        · simp [*]
    | alu op src =>
        simp only [Insn.folded, Insn.exec] at stopped ⊢
        by_cases byZero : op = .div ∧ src.eval regs = 0
        · rwa [if_pos byZero] at stopped ⊢
        · rw [if_neg byZero] at stopped
          cases stopped
    | retA | retK k => exact stopped
    | ldImm dst k | ldLen dst | neg | tax | txa => cases stopped

theorem swallowing_load {prog : List Filter} {c : Nat} {insn : Insn}
    (here : insnAt prog c = some insn) (eats : swallows prog c = true)
    (other : ∀ op src jt jf, insn ≠ .jmp op src jt jf) :
    ∃ k, (∀ stale data regs, insn.exec stale data c regs = .go ⟨c + 1, regs.set k .A⟩) ∧
      insn.folded true = .retK k ∧ insnAt prog (c + 1) = some .retA := by
  obtain ⟨same, next, here', there, may, _⟩ := eaten_cases (c := c) eats
  rw [here] at here'
  cases here'
  cases insn <;> simp only [Insn.mayEat, Bool.and_eq_true, beq_iff_eq, Bool.false_eq_true] at may
  case jmp op src jt jf => exact absurd rfl (other op src jt jf)
  case ldLen dst =>
    obtain ⟨rfl, rfl⟩ := may
    exact ⟨seccompDataLen, fun _ _ _ => rfl, rfl, there⟩
  case ldImm dst k =>
    obtain ⟨rfl, rfl⟩ := may
    exact ⟨k, fun _ _ _ => rfl, rfl, there⟩

theorem swallowing_jump {prog : List Filter} {c : Nat} {op : JmpOp} {src : Src}
    {jt jf : BitVec 8} (here : insnAt prog c = some (.jmp op src jt jf))
    (eats : swallows prog c = true) : ∃ k, insnAt prog (c + 1) = some (.ja k) ∧ jf = 0 := by
  obtain ⟨same, next, here', there, may, _⟩ := eaten_cases (c := c) eats
  rw [here] at here'
  cases here'
  simp only [Insn.mayEat, Bool.and_eq_true, beq_iff_eq] at may
  cases next <;> simp only [Insn.isJa, Bool.false_eq_true, and_false] at may
  exact ⟨_, there, may.1⟩

section Runs

variable {prog : List Filter} (accepted : Accepted prog) {bitmap : Bitmap} {filters : List Filter}
variable (recovered : RecoveredFrom prog bitmap filters)

def position (prog : List Filter) (bitmap : Bitmap) (c : Nat) : Nat :=
  span bitmap.has skip (addr prog c)

include accepted

theorem flagged_uneaten {c t : Nat} (member : t ∈ flaggedAt prog c) : eaten prog t = false := by
  obtain ⟨ahead, inside⟩ := flagged_inside accepted member
  cases t with
  | zero => rfl
  | succ t =>
      rw [Bool.eq_false_iff]
      intro eats
      obtain ⟨_, _, _, _, _, untouched⟩ := eaten_cases eats
      exact untouched ⟨c, ahead, member⟩

theorem position_gap {c t : Nat} (less : c < t) (inside : t ≤ prog.length)
    (clear : bitmap.has (addr prog c) = false) :
    position prog bitmap t = position prog bitmap c + 1 + gap prog bitmap c t := by
  have start := skip_le_addr prog c
  have ahead := addr_lt accepted less inside
  have split := Compact.span_split bitmap.has start (Nat.le_of_lt ahead)
  have head := Compact.span_split bitmap.has (show addr prog c ≤ addr prog c + 1 by omega) ahead
  rw [Compact.span_one, if_pos clear] at head
  unfold position gap
  omega

include recovered

theorem position_next {c : Nat} (inside : c < prog.length)
    (clear : bitmap.has (addr prog c) = false) :
    position prog bitmap (c + 1) = position prog bitmap c + 1 := by
  rw [position_gap accepted (Nat.lt_succ_self c) inside clear,
    gap_next accepted recovered.bits inside clear, Nat.add_zero]

variable (stale : Nat → Word) (data : SeccompData)

omit accepted in
theorem recovered_step {c : Nat} {insn : Insn} (here : insnAt prog c = some insn)
    (clear : bitmap.has (addr prog c) = false) (regs : Regs) :
    ∃ f, insn.Relocates prog bitmap c f ∧ ∀ decoded, f.insn? = some decoded →
      bpfStep stale filters data ⟨position prog bitmap c, regs⟩ =
        decoded.exec stale data (position prog bitmap c) regs := by
  obtain ⟨f, found, relocates⟩ := recovered.filter c insn here clear
  refine ⟨f, relocates, fun decoded meaning => ?_⟩
  apply bpf_step_insn
  rw [insnAt, position, found]
  exact meaning

omit accepted recovered in
/-- How one step of the recovered filters answers the program at a kept group: both come to
the same kept group, with the same registers, or both stop. -/
def Answered (prog : List Filter) (bitmap : Bitmap) (filters : List Filter) (stale : Nat → Word)
    (data : SeccompData) (c : Nat) (regs : Regs) : Prop :=
  (∃ n t regs', Machine.after (bpfStep stale prog data) ⟨c, regs⟩ (n + 1) = some ⟨t, regs'⟩ ∧
    (t < prog.length ∧ bitmap.has (addr prog t) = false) ∧
    bpfStep stale filters data ⟨position prog bitmap c, regs⟩ =
      .go ⟨position prog bitmap t, regs'⟩) ∨
  ∃ n last answer, Machine.after (bpfStep stale prog data) ⟨c, regs⟩ n = some last ∧
    bpfStep stale prog data last = .stop answer ∧
    bpfStep stale filters data ⟨position prog bitmap c, regs⟩ = .stop answer

section Turns

variable {c : Nat} (inside : c < prog.length) (clear : bitmap.has (addr prog c) = false)
variable (regs : Regs)

omit accepted recovered in
theorem after_one (state next : BpfState) (moved : bpfStep stale prog data state = .go next) :
    Machine.after (bpfStep stale prog data) state 1 = some next :=
  (Machine.after_succ _ _ 0 next).mpr ⟨state, rfl, moved⟩

theorem flagged_kept {t : Nat} (member : t ∈ flaggedAt prog c) :
    t < prog.length ∧ bitmap.has (addr prog t) = false := by
  have bound := (flagged_inside accepted member).2
  exact ⟨bound, recovered.bits.starts t bound (flagged_uneaten accepted member)⟩

include inside clear

omit accepted inside in
theorem load_answered {insn : Insn} (here : insnAt prog c = some insn)
    (eats : swallows prog c = true) (other : ∀ op src jt jf, insn ≠ .jmp op src jt jf)
    (relocates : ∀ f, insn.Relocates prog bitmap c f → f.insn? = some (insn.folded true)) :
    Answered prog bitmap filters stale data c regs := by
  obtain ⟨f, from_, step⟩ := recovered_step recovered stale data here clear regs
  obtain ⟨k, run, folded, there⟩ := swallowing_load here eats other
  have loads := bpf_step_insn stale prog data ⟨c, regs⟩ insn here
  rw [run] at loads
  right
  refine ⟨1, ⟨c + 1, regs.set k .A⟩, .ret k, after_one stale data _ _ loads, ?_, ?_⟩
  · rw [bpf_step_insn stale prog data ⟨c + 1, regs.set k .A⟩ .retA there]
    rfl
  · rw [step _ (relocates f from_), folded]
    rfl

theorem plain_answered {insn : Insn} (here : insnAt prog c = some insn)
    (stays : swallows prog c = false) (still : insn.isJa = false)
    (other : ∀ op src jt jf, insn ≠ .jmp op src jt jf)
    (relocates : ∀ f, insn.Relocates prog bitmap c f → f.insn? = some (insn.folded false)) :
    Answered prog bitmap filters stale data c regs := by
  obtain ⟨f, from_, step⟩ := recovered_step recovered stale data here clear regs
  have own := bpf_step_insn stale prog data ⟨c, regs⟩ insn here
  have act := step _ (relocates f from_)
  obtain ⟨onGo, onStop⟩ :=
    folded_exec stale data c (position prog bitmap c) regs insn still other
  cases exec : insn.exec stale data c regs with
  | go next =>
      obtain ⟨following, acts⟩ := onGo next exec
      obtain ⟨pc, regs'⟩ := next
      obtain rfl : pc = c + 1 := following
      have bound : c + 1 < prog.length := clean_successor carried prog accepted.passes
        accepted.ends c insn inside here _ (exec_successor stale data c regs insn _ exec)
      left
      refine ⟨0, c + 1, regs', after_one stale data _ _ (own.trans exec), ⟨bound, ?_⟩, ?_⟩
      · exact recovered.bits.starts _ bound stays
      · rw [act, acts, position_next accepted recovered inside clear]
  | stop answer =>
      exact Or.inr ⟨0, ⟨c, regs⟩, answer, rfl, own.trans exec, by rw [act, onStop answer exec]⟩

omit inside in
theorem ja_answered {k : Word} (here : insnAt prog c = some (.ja k)) :
    Answered prog bitmap filters stale data c regs := by
  obtain ⟨f, ⟨k', decoded, distance⟩, step⟩ :=
    recovered_step recovered stale data here clear regs
  have kept := flagged_kept accepted recovered
    (show c + 1 + k.toNat ∈ flaggedAt prog c by simp [flaggedAt, here, Insn.flagged])
  have own := bpf_step_insn stale prog data ⟨c, regs⟩ _ here
  left
  refine ⟨0, c + 1 + k.toNat, regs, after_one stale data _ _ own, kept, ?_⟩
  rw [step _ decoded, position_gap accepted (show c < c + 1 + k.toNat by omega)
    (Nat.le_of_lt kept.1) clear, ← distance]
  rfl

section Jump

variable {op : JmpOp} {src : Src} {jt jf : BitVec 8}
variable (here : insnAt prog c = some (.jmp op src jt jf))

include here

omit clear in
theorem true_kept : bitmap.has (addr prog (c + 1 + jt.toNat)) = false := by
  obtain ⟨_, trueIn, _⟩ := accepted_admissible accepted here
  have kept {t : Nat} (member : t ∈ flaggedAt prog c) := (flagged_kept accepted recovered member).2
  cases form : jmpForm op jt jf with
  | taken | both => exact kept (by simp [flaggedAt, here, Insn.flagged, form])
  | inverted =>
      -- `jt` is 0, and a jump with another `jf` takes over nothing
      obtain ⟨falls, noJt, _⟩ := jmp_form_inverted op jt jf form
      have stays : swallows prog c = false := not_swallows here fun next => by
        rw [Insn.mayEat, beq_false_of_ne falls]
        rfl
      rw [noJt]
      exact recovered.bits.starts (c + 1) (by omega) stays

omit clear in
theorem false_kept
    (runs : ¬ (swallows prog c = true ∧ bitmap.has (addr prog (c + 1)) = true)) :
    bitmap.has (addr prog (c + 1 + jf.toNat)) = false := by
  obtain ⟨_, _, falseIn⟩ := accepted_admissible accepted here
  have kept {t : Nat} (member : t ∈ flaggedAt prog c) := (flagged_kept accepted recovered member).2
  cases form : jmpForm op jt jf with
  | inverted | both => exact kept (by simp [flaggedAt, here, Insn.flagged, form])
  | taken =>
      obtain rfl := (jmp_form_taken op jt jf).mp form
      cases eats : swallows prog c with
      | true => simpa [eats] using runs
      | false => exact recovered.bits.starts (c + 1) (by omega) eats

omit inside in
theorem absorbed_answered (fails : op.holds regs.A (src.eval regs) = false)
    (taken : swallows prog c = true ∧ bitmap.has (addr prog (c + 1)) = true) :
    Answered prog bitmap filters stale data c regs := by
  obtain ⟨f, ⟨jt', jf', decoded, _, onFalse⟩, step⟩ :=
    recovered_step recovered stale data here clear regs
  obtain ⟨k, there, falls⟩ := swallowing_jump here taken.1
  subst falls
  have own := bpf_step_insn stale prog data ⟨c, regs⟩ _ here
  have jumps := bpf_step_insn stale prog data ⟨c + 1, regs⟩ (.ja k) there
  have kept := flagged_kept accepted recovered
    (show c + 1 + 1 + k.toNat ∈ flaggedAt prog (c + 1) by simp [flaggedAt, there, Insn.flagged])
  simp only [Insn.exec, fails, Bool.false_eq_true, ↓reduceIte] at own
  left
  refine ⟨1, c + 1 + 1 + k.toNat, regs,
    (Machine.after_succ _ _ 1 _).mpr ⟨⟨c + 1, regs⟩, after_one stale data _ _ own, jumps⟩, kept, ?_⟩
  rw [step _ decoded]
  simp only [Insn.exec, fails, Bool.false_eq_true, ↓reduceIte]
  rw [onFalse, falseTarget, if_pos taken, jaTarget, there,
    position_gap accepted (show c < c + 1 + 1 + k.toNat by omega) (Nat.le_of_lt kept.1) clear]

theorem jmp_answered : Answered prog bitmap filters stale data c regs := by
  obtain ⟨f, ⟨jt', jf', decoded, onTrue, onFalse⟩, step⟩ :=
    recovered_step recovered stale data here clear regs
  obtain ⟨_, trueIn, falseIn⟩ := accepted_admissible accepted here
  have own := bpf_step_insn stale prog data ⟨c, regs⟩ _ here
  have act := step _ decoded
  cases holds : op.holds regs.A (src.eval regs) with
  | true =>
      simp only [Insn.exec, holds, ↓reduceIte] at act own
      left
      refine ⟨0, c + 1 + jt.toNat, regs, after_one stale data _ _ own,
        ⟨by omega, true_kept accepted recovered inside here⟩, ?_⟩
      rw [act, onTrue, position_gap accepted (show c < c + 1 + jt.toNat by omega) (by omega) clear]
  | false =>
      by_cases taken : swallows prog c = true ∧ bitmap.has (addr prog (c + 1)) = true
      · exact absorbed_answered accepted recovered stale data clear regs here holds taken
      · simp only [Insn.exec, holds, Bool.false_eq_true, ↓reduceIte] at act own
        left
        refine ⟨0, c + 1 + jf.toNat, regs, after_one stale data _ _ own,
          ⟨by omega, false_kept accepted recovered inside here taken⟩, ?_⟩
        rw [act, onFalse, falseTarget, if_neg taken,
          position_gap accepted (show c < c + 1 + jf.toNat by omega) (by omega) clear]

end Jump

theorem recovered_answered : Answered prog bitmap filters stale data c regs := by
  obtain ⟨insn, here⟩ := accepted_insn accepted inside
  have straight (still : insn.isJa = false) (other : ∀ op src jt jf, insn ≠ .jmp op src jt jf)
      (relocates : ∀ f, insn.Relocates prog bitmap c f →
        f.insn? = some (insn.folded (swallows prog c))) :
      Answered prog bitmap filters stale data c regs := by
    cases eats : swallows prog c with
    | true =>
        exact load_answered recovered stale data clear regs here eats other
          (eats ▸ relocates)
    | false =>
        exact plain_answered accepted recovered stale data inside clear regs here eats still other
          (eats ▸ relocates)
  cases insn with
  | ja k => exact ja_answered accepted recovered stale data clear regs here
  | jmp op src jt jf => exact jmp_answered accepted recovered stale data inside clear regs here
  | ldAbs k | ldLen dst | ldImm dst k | ldMem dst k | st src k | alu op src | neg | tax | txa
  | retA | retK k => exact straight rfl (by simp) fun f from_ => from_

end Turns

theorem recovered_simulates (fuel c : Nat) (regs : Regs) (answer : BpfEnd)
    (inside : c < prog.length) (clear : bitmap.has (addr prog c) = false)
    (found : Machine.result (bpfStep stale prog data) fuel ⟨c, regs⟩ = some answer) :
    Machine.result (bpfStep stale filters data) fuel ⟨position prog bitmap c, regs⟩ =
      some answer := by
  obtain ⟨reply, replied, rfl⟩ := Machine.shortcut_simulation (bpfStep stale prog data)
    (bpfStep stale filters data)
    (fun state same => (state.pc < prog.length ∧ bitmap.has (addr prog state.pc) = false) ∧
      same = ⟨position prog bitmap state.pc, state.regs⟩) Eq
    (by
      rintro ⟨c, regs⟩ _ ⟨⟨inside, clear⟩, rfl⟩
      rcases recovered_answered accepted recovered stale data inside clear regs with
        ⟨n, t, regs', run, kept, moved⟩ | ⟨n, last, answer, run, stops, stopped⟩
      · exact Or.inl ⟨n, _, _, run, moved, kept, rfl⟩
      · exact Or.inr ⟨n, last, answer, answer, run, stops, stopped, rfl⟩)
    fuel ⟨c, regs⟩ _ ⟨⟨inside, clear⟩, rfl⟩ answer found
  exact replied

end Runs

theorem bpf_run_of_result (stale : Nat → Word) (prog : List Filter) (data : SeccompData)
    (fuel : Nat) (value : Word)
    (found : Machine.result (bpfStep stale prog data) fuel .initial = some (.ret value)) :
    bpfRun stale prog data = some value := by
  obtain ⟨n, last, _, reached, stopped⟩ := Machine.result_last _ _ _ _ found
  have ahead := Machine.after_invariant_along (bpfStep stale prog data)
    (fun n state => n ≤ state.pc) BpfState.initial (Nat.le_refl 0)
    (fun n state next _ moved le => by
      obtain ⟨insn, _, exec⟩ := bpf_step_go stale prog data state next moved
      have := successors_ahead insn state.pc next.pc
        (exec_successor stale data state.pc state.regs insn next exec)
      omega) n last reached
  have inside : last.pc < prog.length := by
    by_contra beyond
    have none : prog[last.pc]? = none := List.getElem?_eq_none (by omega)
    simp [bpfStep, none] at stopped
  have short := Machine.result_mono _ (n + 1) prog.length _ _
    (Machine.result_of_after _ _ n last _ reached stopped) (by omega)
  rw [bpfRun, short]

theorem recovered_decides {prog : List Filter} (nonempty : prog ≠ []) (clean : CheckClean prog)
    (accepted : Accepted prog) {bitmap : Bitmap} {filters : List Filter}
    (recovered : RecoveredFrom prog bitmap filters) (stale : Nat → Word) (data : SeccompData) :
    ∃ value, bpfRun stale filters data = some value ∧ bpfRun stale prog data = some value := by
  have length := List.length_pos_iff.mpr nonempty
  obtain ⟨n, last, value, _, reached, stopped, _⟩ :=
    clean_run_stops stale prog data nonempty clean
  have found := Machine.result_of_after _ _ n last _ reached stopped
  have clear : bitmap.has (addr prog 0) = false := recovered.bits.starts 0 length rfl
  have simulated := recovered_simulates accepted recovered stale data (n + 1) 0 .initial (.ret value)
    length clear found
  rw [show position prog bitmap 0 = 0 from Compact.span_self ..] at simulated
  exact ⟨value, bpf_run_of_result stale _ data _ value simulated,
    bpf_run_of_result _ prog data _ value found⟩

/-- For every program that passes the seccomp checks, `ebpf2cbpf` on its migrated form fails
no assertion, cuts off no jump offset, and yields filters that return the same value on every
data. What the kernel admits writes each scratch slot before it reads it, so that what memory
held before makes no difference either. -/
theorem ebpf2cbpf_preserves (prog : List Filter) (nonempty : prog ≠ [])
    (short : prog.length ≤ bpfMaxInsns) (clean : CheckClean prog) (ebpfs : Nat → BpfInsn)
    (migrated : Migrated prog ebpfs) (buf : Nat → Filter) (trustful : Bool) :
    ∃ recovered, ebpf2cbpf ebpfs (bpfConvertFilter prog).length buf trustful = .ok recovered ∧
      (∀ value ∈ recovered.stored, value ≤ 255) ∧
      (∀ stale data, ∃ value, bpfRun stale recovered.filters data = some value ∧
        bpfRun stale prog data = some value) ∧
      (MergedClean prog → ∀ stale other data,
        bpfRun stale recovered.filters data = bpfRun other prog data) := by
  obtain ⟨passes, ends⟩ := check_clean_passes prog nonempty clean
  have accepted : Accepted prog := ⟨passes, ends, short⟩
  obtain ⟨recovered, bitmap, returned, fits, from_⟩ :=
    ebpf2cbpf_recovers accepted nonempty migrated buf trustful
  have decides := recovered_decides nonempty clean accepted from_
  refine ⟨recovered, returned, fits, decides, ?_⟩
  intro merged stale other data
  obtain ⟨value, found, original⟩ := decides stale data
  rw [found, ← original]
  exact reads_written_stale _ other prog data
    (merged_reads_written _ prog data nonempty clean merged)

/-- Allow only the call numbered 5. -/
def allowOne : List Filter :=
  [⟨0x20, 0, 0, 0⟩, ⟨0x15, 0, 1, 5⟩, ⟨0x06, 0, 0, 0x7fff0000⟩, ⟨0x06, 0, 0, 0⟩]

theorem ebpf2cbpf_preserves_allow_one : ∃ recovered,
    ebpf2cbpf (fun i => (bpfConvertFilter allowOne).getD i default)
      (bpfConvertFilter allowOne).length (fun _ => cbpfStmt 0 0) false = .ok recovered ∧
      (∀ value ∈ recovered.stored, value ≤ 255) ∧
      ∀ stale other data, bpfRun stale recovered.filters data = bpfRun other allowOne data := by
  obtain ⟨recovered, returned, fits, _, same⟩ := ebpf2cbpf_preserves allowOne (by decide) (by decide)
    ⟨by decide, by decide⟩ _ (migrated_list allowOne) (fun _ => cbpfStmt 0 0) false
  exact ⟨recovered, returned, fits, same ⟨by decide, by decide⟩⟩

end Ceccomp
