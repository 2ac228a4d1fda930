import Ceccomp.Disasm.Soundness

/-!
Under which architecture `render` names a system call. The architecture of a
context is refined by `==` and `!=` only; any other comparison with a tracked
architecture hands on nothing, and the 0 an entry starts with is also what an
operand of 0, or the register `$X`, hands on.
-/

namespace Ceccomp

/-- A conditional jump at which the tracker holds `A_stat = ARCH`. -/
def ArchJump (defaultArch : Word) (prog : List Filter) (pc : Nat) : Prop :=
  ∃ op src jt jf, insnAt prog pc = some (.jmp op src jt jf) ∧
    (contextAt defaultArch prog pc).aStat = .arch

/-- The two numbers under which no system call is looked up, or none is found. -/
def Undetermined (arch : Word) : Prop := arch = archNone ∨ arch = archMixed

instance (arch : Word) : Decidable (Undetermined arch) := inferInstanceAs (Decidable (_ ∨ _))

/-- `set_arch` fills the 0 that filter `pc` has with an architecture found at `via`. -/
def ArchFills (defaultArch : Word) (prog : List Filter) (via pc : Nat) : Prop :=
  (trackBefore defaultArch prog via).archs pc = archNone ∧
    ∃ arch, (pc, arch) ∈ archSendsAt defaultArch prog via ∧ ¬ Undetermined arch

/-- Where a step hands on no architecture, or only 0, the target has none yet and no
later filter fills it before its turn comes. -/
def ArchKept (defaultArch : Word) (prog : List Filter) (before next : BpfState) : Prop :=
  (∀ arch, (next.pc, arch) ∈ archSendsAt defaultArch prog before.pc → arch = archNone) →
    Undetermined ((trackBefore defaultArch prog (before.pc + 1)).archs next.pc) ∧
      ∀ via, before.pc < via → via < next.pc → ¬ ArchFills defaultArch prog via next.pc

theorem merge_arch_undetermined (old new : Word) (oldFree : Undetermined old)
    (newFree : Undetermined new) : Undetermined (mergeArch old new) := by
  rcases oldFree with rfl | rfl <;> rcases newFree with rfl | rfl <;> decide

theorem merge_arch_mixed (new : Word) : mergeArch archMixed new = archMixed := by
  unfold mergeArch
  rw [if_neg (by decide)]
  split <;> rfl

theorem merge_arch_own (old new : Word) (real : new ≠ archNone) :
    mergeArch old new = new ∨ mergeArch old new = archMixed := by
  unfold mergeArch
  by_cases empty : old = archNone
  · simp [empty]
  · by_cases same : old = new
    · subst same
      simp [empty]
    · simp [empty, same]

theorem merge_arch_known (old new known : Word) (real : known ≠ archNone)
    (knows : old = known ∨ old = archMixed) :
    mergeArch old new = known ∨ mergeArch old new = archMixed := by
  rcases knows with rfl | rfl
  · unfold mergeArch
    by_cases same : old = new
    · simp [same]
    · simp [real, same]
  · exact Or.inr (merge_arch_mixed new)

theorem archs_move_at (defaultArch : Word) (prog : List Filter) (pc idx : Nat) :
    (trackBefore defaultArch prog (pc + 1)).archs idx =
      Forward.absorb mergeArch (trackBefore defaultArch prog pc).archs
        (archSendsAt defaultArch prog pc) idx :=
  congrFun (archs_move defaultArch prog pc) idx

/-- An architecture handed on is still there when the target's turn comes, or the
paths that meet there disagree. -/
theorem arch_received (defaultArch : Word) (prog : List Filter) (source pc : Nat) (arch : Word)
    (ahead : source < pc) (real : arch ≠ archNone)
    (sent : (pc, arch) ∈ archSendsAt defaultArch prog source) :
    (contextAt defaultArch prog pc).arch = arch ∨
      (contextAt defaultArch prog pc).arch = archMixed := by
  have received := Forward.table_received mergeArch
    (fun n => (trackBefore defaultArch prog n).archs) (archSendsAt defaultArch prog)
    (fun n idx _ => archs_move_at defaultArch prog n idx)
    (fun held fact => fact ≠ archNone → held = fact ∨ held = archMixed)
    (fun old new real => merge_arch_own old new real)
    (fun old new known knows real => merge_arch_known old new known real (knows real))
    source pc arch ahead sent
  exact received real

theorem undetermined_kept (defaultArch : Word) (prog : List Filter) (first pc : Nat)
    (le : first ≤ pc) (free : Undetermined ((trackBefore defaultArch prog first).archs pc))
    (unfilled : ∀ via, first ≤ via → via < pc → ¬ ArchFills defaultArch prog via pc) :
    Undetermined (contextAt defaultArch prog pc).arch := by
  refine Forward.entry_kept (fun n => (trackBefore defaultArch prog n).archs) Undetermined
    first pc le free ?_
  intro via later inside free
  rw [archs_move_at defaultArch prog via pc]
  rcases free with empty | mixed
  · refine Forward.absorb_kept mergeArch Undetermined _ _ pc ?_ (Or.inl empty)
    intro old arch member oldFree
    have archFree : Undetermined arch := by
      by_contra real
      exact unfilled via later inside ⟨empty, arch, member, real⟩
    exact merge_arch_undetermined old arch oldFree archFree
  · refine Or.inr (Forward.absorb_invariant mergeArch (· = archMixed) ?_ _ _ pc mixed)
    rintro old new rfl
    exact merge_arch_mixed new

/-- What a conditional jump on a tracked architecture hands on: a comparison for
equality gives its operand to the branch taken on equality. -/
theorem arch_jump_sends (pc : Nat) (op : JmpOp) (src : Src) (jt jf : BitVec 8) (ctx : StatCtx)
    (tracked : ctx.aStat = .arch) :
    (Insn.jmp op src jt jf).archSends pc ctx =
      if op = .jeq then
        [(pc + 1 + jt.toNat, src.imm), (pc + 1 + jf.toNat, archMixed)]
      else [] := by
  have operand : src.obj.data = src.imm := by cases src <;> rfl
  by_cases swapped : jt = 0 ∧ jf ≠ 0
  · have moved : decide (jt = 0 ∧ jf ≠ 0) = true := by simpa using swapped
    cases op <;>
      simp only [Insn.archSends, Insn.line, jmpShown, Label.to, tracked, moved, JmpOp.reverseType,
        operand, Bool.false_eq_true, ↓reduceIte, Bool.not_true, ne_eq, not_true, reduceCtorEq]
  · have kept : decide (jt = 0 ∧ jf ≠ 0) = false := by simpa using swapped
    cases op <;>
      simp only [Insn.archSends, Insn.line, jmpShown, Label.to, tracked, kept, JmpOp.type, operand,
        Bool.false_eq_true, ↓reduceIte, Bool.not_true, ne_eq, not_true, reduceCtorEq]

theorem arch_copied (pc : Nat) (insn : Insn) (ctx : StatCtx) (next : Nat)
    (target : next ∈ insn.handTargets pc)
    (plain : ∀ op src jt jf, insn = .jmp op src jt jf → ctx.aStat ≠ .arch) :
    (next, ctx.arch) ∈ insn.archSends pc ctx ∧
      ∀ arch, (next, arch) ∈ insn.archSends pc ctx → arch = ctx.arch := by
  cases shape : insn.line with
  | assign line =>
      simp only [Insn.handTargets, shape, List.mem_singleton] at target
      simp [Insn.archSends, shape, target]
  | jump line =>
      cases conditional : line.ifCondition with
      | false =>
          simp only [Insn.handTargets, shape, conditional, Bool.false_eq_true, ↓reduceIte,
            List.mem_singleton] at target
          simp [Insn.archSends, shape, conditional, target]
      | true =>
          have plainly : ctx.aStat ≠ .arch := by
            cases insn <;> simp only [Insn.line, AssignLine.mk', reduceCtorEq] at shape
            case ja k => cases shape; simp [jaShown] at conditional
            case jmp op src jt jf => exact plain op src jt jf rfl
          simp only [Insn.handTargets, shape, conditional, ↓reduceIte, List.mem_cons,
            List.not_mem_nil, or_false] at target
          constructor
          · rcases target with same | same <;> simp [Insn.archSends, shape, conditional, plainly, same]
          · intro arch member
            simp only [Insn.archSends, shape, conditional, Bool.not_true, Bool.false_eq_true,
              ↓reduceIte, if_pos plainly, List.mem_cons, Prod.mk.injEq, List.not_mem_nil,
              or_false] at member
            rcases member with ⟨_, same⟩ | ⟨_, same⟩ <;> exact same
  | return_ line | empty | eof | error line => simp [Insn.handTargets, shape] at target

/-- The architecture of a context is none, the real one, or the default one that no
comparison on the way has questioned. -/
def ArchSettled (stale : Nat → Word) (defaultArch : Word) (prog : List Filter)
    (data : SeccompData) (n : Nat) (state : BpfState) : Prop :=
  Undetermined (contextAt defaultArch prog state.pc).arch ∨
    data.arch = (contextAt defaultArch prog state.pc).arch ∨
    ((contextAt defaultArch prog state.pc).arch = defaultArch ∧
      ∀ m earlier, m < n → Machine.after (bpfStep stale prog data) .initial m = some earlier →
        ¬ ArchJump defaultArch prog earlier.pc)

theorem arch_handed (defaultArch : Word) (prog : List Filter) (before next : BpfState)
    (ahead : before.pc < next.pc) (kept : ArchKept defaultArch prog before next) (arch : Word)
    (sent : (next.pc, arch) ∈ archSendsAt defaultArch prog before.pc)
    (all : ∀ other, (next.pc, other) ∈ archSendsAt defaultArch prog before.pc → other = arch) :
    Undetermined (contextAt defaultArch prog next.pc).arch ∨
      (contextAt defaultArch prog next.pc).arch = arch := by
  by_cases real : arch = archNone
  · obtain ⟨free, unfilled⟩ := kept (fun other member => (all other member).trans real)
    exact Or.inl (undetermined_kept defaultArch prog (before.pc + 1) next.pc ahead free
      (fun via later => unfilled via (by omega)))
  · rcases arch_received defaultArch prog before.pc next.pc arch ahead real sent with same | mixed
    · exact Or.inr same
    · exact Or.inl (Or.inr mixed)

/-- Behind a jump on the tracked architecture: none, or the one it compared equal to. -/
theorem arch_jump_step (defaultArch : Word) (prog : List Filter) (data : SeccompData)
    (before : BpfState) (op : JmpOp) (src : Src) (jt jf : BitVec 8)
    (here : insnAt prog before.pc = some (.jmp op src jt jf))
    (tracked : (contextAt defaultArch prog before.pc).aStat = .arch)
    (sound : before.regs.A = data.arch) (next : BpfState)
    (target : next.pc = before.pc + 1 +
      if op.holds before.regs.A (src.eval before.regs) then jt.toNat else jf.toNat)
    (kept : ArchKept defaultArch prog before next) :
    Undetermined (contextAt defaultArch prog next.pc).arch ∨
      data.arch = (contextAt defaultArch prog next.pc).arch := by
  have ahead : before.pc < next.pc := by omega
  have sends : archSendsAt defaultArch prog before.pc =
      if op = .jeq then
        [(before.pc + 1 + jt.toNat, src.imm), (before.pc + 1 + jf.toNat, archMixed)]
      else [] := by
    simp only [archSendsAt, here, arch_jump_sends before.pc op src jt jf _ tracked]
  -- what the jump hands to its target: nothing, the arch it compared with, or `MIXED`
  by_cases zero : ∀ arch, (next.pc, arch) ∈ archSendsAt defaultArch prog before.pc → arch = archNone
  · obtain ⟨free, unfilled⟩ := kept zero
    exact Or.inl (undetermined_kept defaultArch prog (before.pc + 1) next.pc ahead free
      (fun via later => unfilled via (by omega)))
  · obtain ⟨arch, sent, real⟩ : ∃ arch,
        (next.pc, arch) ∈ archSendsAt defaultArch prog before.pc ∧ arch ≠ archNone := by
      by_contra none
      exact zero fun arch member => by_contra fun real => none ⟨arch, member, real⟩
    have received := arch_received defaultArch prog before.pc next.pc
    -- comparisons other than `==` hand nothing on
    have equality : op = .jeq := by
      by_contra other
      simp [sends, other] at sent
    subst equality
    simp only [↓reduceIte] at sends
    by_cases holds : before.regs.A = src.eval before.regs
    · simp only [sends, List.mem_cons, Prod.mk.injEq, List.not_mem_nil, or_false] at sent
      rcases sent with ⟨_, rfl⟩ | ⟨there, rfl⟩
      · cases src with
        | x => exact absurd rfl real
        | k value =>
            have same : data.arch = value := sound.symm.trans holds
            rcases received value ahead real (by simp [sends, target, JmpOp.holds, holds, Src.imm])
              with held | mixed
            · exact Or.inr (same.trans held.symm)
            · exact Or.inl (Or.inr mixed)
      · rcases received archMixed ahead (by decide) (by rw [sends, there]; simp) with
          mixed | mixed <;> exact Or.inl (Or.inr mixed)
    · have untrue : JmpOp.jeq.holds before.regs.A (src.eval before.regs) = false := by
        simpa [JmpOp.holds] using holds
      rcases received archMixed ahead (by decide) (by simp [sends, target, untrue]) with
        mixed | mixed <;> exact Or.inl (Or.inr mixed)

theorem arch_settled_step (stale : Nat → Word) (defaultArch : Word) (prog : List Filter)
    (data : SeccompData) (accepted : Accepted16 prog) (n : Nat) (before next : BpfState)
    (inside : before.pc < prog.length)
    (reached : Machine.after (bpfStep stale prog data) .initial n = some before)
    (sound : ContextSound defaultArch prog data before)
    (kept : ArchKept defaultArch prog before next)
    (moved : bpfStep stale prog data before = .go next)
    (settled : ArchSettled stale defaultArch prog data n before) :
    ArchSettled stale defaultArch prog data (n + 1) next := by
  obtain ⟨insn, here, exec⟩ := bpf_step_go stale prog data before next moved
  have member := exec_successor stale data before.pc before.regs insn next exec
  have ahead := successors_ahead insn before.pc next.pc member
  by_cases jump : ArchJump defaultArch prog before.pc
  · obtain ⟨op, src, jt, jf, found, tracked⟩ := jump
    rw [here] at found
    cases found
    have value : before.regs.A = data.arch := by
      have agrees := sound .A before.regs.A rfl
      rwa [show (contextAt defaultArch prog before.pc).stat .A = .arch from tracked] at agrees
    cases exec
    rcases arch_jump_step defaultArch prog data before op src jt jf here tracked value _ rfl kept with
      free | real
    · exact Or.inl free
    · exact Or.inr (Or.inl real)
  -- any other instruction copies its own context to where it goes
  · have target := successor_handed accepted before.pc insn inside here next.pc member
    obtain ⟨sent, all⟩ := arch_copied before.pc insn (contextAt defaultArch prog before.pc) next.pc
      target (fun op src jt jf same tracked => jump ⟨op, src, jt, jf, same ▸ here, tracked⟩)
    have sends : archSendsAt defaultArch prog before.pc =
        insn.archSends before.pc (contextAt defaultArch prog before.pc) := by
      simp [archSendsAt, here]
    rw [← sends] at sent all
    rcases arch_handed defaultArch prog before next ahead kept _ sent all with free | same
    · exact Or.inl free
    · rcases settled with free | real | ⟨default, plain⟩
      · exact Or.inl (same ▸ free)
      · exact Or.inr (Or.inl (real.trans same.symm))
      · refine Or.inr (Or.inr ⟨same.trans default, fun m earlier early at_ => ?_⟩)
        rcases Nat.lt_or_ge m n with less | last
        · exact plain m earlier less at_
        · obtain rfl : m = n := by omega
          rw [reached] at at_
          cases at_
          exact jump

/-- Every step the run takes keeps the architecture the tracker holds honest. -/
def RunArchKept (stale : Nat → Word) (defaultArch : Word) (prog : List Filter)
    (data : SeccompData) : Prop :=
  ∀ n state next, Machine.after (bpfStep stale prog data) .initial n = some state →
    bpfStep stale prog data state = .go next → ArchKept defaultArch prog state next

theorem arch_settled_run (stale : Nat → Word) (defaultArch : Word) (prog : List Filter)
    (data : SeccompData) (accepted : Accepted16 prog)
    (tracked : RunTracked stale defaultArch prog data)
    (kept : RunArchKept stale defaultArch prog data) (n : Nat) (state : BpfState)
    (reached : Machine.after (bpfStep stale prog data) .initial n = some state) :
    ArchSettled stale defaultArch prog data n state := by
  refine Machine.after_invariant_along (bpfStep stale prog data)
    (ArchSettled stale defaultArch prog data) .initial ?_ ?_ n state reached
  · exact Or.inr (Or.inr ⟨rfl, fun m _ early => absurd early (by omega)⟩)
  · intro n before next early moved settled
    exact arch_settled_step stale defaultArch prog data accepted n before next
      (clean_runs_inside stale prog data accepted.nonempty accepted.clean n before early) early
      (context_sound_run stale defaultArch prog data accepted tracked n before early)
      (kept n before next early moved) moved settled

def Statement.Conditional (statement : Statement) (line : JumpLine) : Prop :=
  statement.line = .jump line ∧ line.ifCondition = true

/-- `try_resolve_sysnr` replaces the operand of the jump at `pc` by a name it has under
`arch`. -/
def NamedUnder (lib : Libseccomp) (defaultArch : Word) (pile : Nat) (shown : List Statement)
    (pc : Nat) (arch : Word) : Prop :=
  ∃ ctx statement line name, HeldContext lib defaultArch pile shown pc ctx ∧
    shown[pc]? = some statement ∧ statement.Conditional line ∧ ctx.aStat = .sysnr ∧
    ctx.arch = arch ∧ arch ≠ archNone ∧ lib.resolveNumArch arch line.cmpobj.data = some name

theorem conditional_insn {prog : List Filter} (accepted : Accepted16 prog) (shown : List Statement)
    (decodes : Decodes prog shown) (pc : Nat) (inside : pc < prog.length) (statement : Statement)
    (found : shown[pc]? = some statement) (line : JumpLine)
    (conditional : statement.Conditional line) :
    ∃ op src jt jf, insnAt prog pc = some (.jmp op src jt jf) ∧ line = jmpShown op src jt jf := by
  obtain ⟨insn, here, _⟩ := accepted16_insn accepted pc inside
  rw [decodes.each pc insn here] at found
  cases found
  obtain ⟨jumps, cond⟩ := conditional
  cases insn with
  | jmp op src jt jf =>
      cases jumps
      exact ⟨op, src, jt, jf, here, rfl⟩
  | ja k =>
      cases jumps
      simp [jaShown] at cond
  | ldAbs _ | ldLen _ | ldImm _ _ | ldMem _ _ | st _ _ | alu _ _ | neg | tax | txa | retA | retK _ =>
      cases jumps

/-- In a run whose steps leave the tracking undisturbed and keep the tracked
architecture, a system call is named under the architecture of the data, or under
the default one while no jump has compared the architecture. -/
theorem named_under_determined_arch (lib : Libseccomp) (knows : lib.KnowsArchs)
    (defaultArch : Word) (pile : Nat) (stale : Nat → Word) (prog : List Filter)
    (data : SeccompData) (accepted : Accepted16 prog) (shown : List Statement)
    (decoded : decodeFilters prog false = .ok (some (Statement.zero :: shown), false))
    (tracked : RunTracked stale defaultArch prog data)
    (kept : RunArchKept stale defaultArch prog data) (n : Nat) (state : BpfState)
    (reached : Machine.after (bpfStep stale prog data) .initial n = some state) (arch : Word)
    (named : NamedUnder lib defaultArch pile shown state.pc arch) :
    data.arch = arch ∨ (arch = defaultArch ∧
      ∀ m earlier ctx statement line, m < n →
        Machine.after (bpfStep stale prog data) .initial m = some earlier →
        shown[earlier.pc]? = some statement → statement.Conditional line →
        HeldContext lib defaultArch pile shown earlier.pc ctx → ctx.aStat ≠ .arch) := by
  have decodes := accepted_decodes accepted shown decoded
  have bounded := clean_runs_inside stale prog data accepted.nonempty accepted.clean
  obtain ⟨ctx, statement, line, name, held, _, _, _, rfl, real, resolved⟩ := named
  obtain rfl := held_context lib defaultArch pile prog accepted shown decodes state.pc
    (bounded n state reached) ctx held
  rcases arch_settled_run stale defaultArch prog data accepted tracked kept n state reached with
    (none | mixed) | same | ⟨default, plain⟩
  · exact absurd none real
  · obtain ⟨internal, found⟩ := knows _ _ _ real resolved
    rw [mixed] at found
    exact absurd (reserved_archs_unknown.2.symm.trans found) (by simp)
  · exact Or.inl same
  · refine Or.inr ⟨default, ?_⟩
    intro m earlier ctx statement line early before found conditional heldThere archTracked
    have inside := bounded m earlier before
    obtain ⟨op, src, jt, jf, here, _⟩ := conditional_insn accepted shown decodes earlier.pc inside
      statement found line conditional
    obtain rfl := held_context lib defaultArch pile prog accepted shown decodes earlier.pc inside ctx
      heldThere
    exact plain m earlier early before ⟨op, src, jt, jf, here, archTracked⟩

/-- One name under each of two architectures. -/
def twoNames : Libseccomp :=
  { resolveNumArch := fun arch number =>
      if arch = 0xC000003E ∧ number = 5 then some "fstat".toList
      else if arch = 0x40000003 ∧ number = 1 then some "exit".toList
      else none
    resolveNameArch := fun arch name =>
      if arch = 0xC000003E ∧ name = "fstat".toList then 5
      else if arch = 0x40000003 ∧ name = "exit".toList then 1
      else 0xFFFFFFFF }

theorem two_names_knows : twoNames.KnowsArchs := by
  intro arch number name _ resolved
  simp only [twoNames] at resolved
  split at resolved
  · next first => exact ⟨.archX86_64, by rw [first.1]; decide⟩
  · split at resolved
    · next second => exact ⟨.archX86, by rw [second.1]; decide⟩
    · cases resolved

/-- `$A = $arch; if ($A > i386) goto L4; if ($A != i386) goto L6; L4: $A = $syscall_nr;
if ($A == 1) goto L7; L6: return KILL; L7: return ALLOW` -/
def compareTwice : List Filter :=
  [⟨0x20, 0, 0, 4⟩, ⟨0x25, 1, 0, 0x40000003⟩, ⟨0x15, 0, 2, 0x40000003⟩, ⟨0x20, 0, 0, 0⟩,
    ⟨0x15, 1, 0, 1⟩, ⟨0x06, 0, 0, 0⟩, ⟨0x06, 0, 0, 0x7fff0000⟩]

def compareTwiceShown : List Statement :=
  [(Insn.ldAbs 4).statement 1, (Insn.jmp .jgt (.k 0x40000003) 1 0).statement 2,
    (Insn.jmp .jeq (.k 0x40000003) 0 2).statement 3, (Insn.ldAbs 0).statement 4,
    (Insn.jmp .jeq (.k 1) 1 0).statement 5, (Insn.retK 0).statement 6,
    (Insn.retK 0x7fff0000).statement 7]

theorem compare_twice_accepted : Accepted16 compareTwice :=
  ⟨by decide, ⟨by decide, by decide⟩, by decide⟩

/-- `>` hands on nothing, so only the path that found `i386` speaks at the join: on
x86_64 the number 1 is still shown as `i386.exit`. -/
theorem greater_than_names_foreign :
    ¬ ∀ (lib : Libseccomp), lib.KnowsArchs → ∀ (defaultArch : Word) (pile : Nat)
      (stale : Nat → Word) (prog : List Filter) (data : SeccompData), Accepted16 prog →
      ∀ (shown : List Statement),
      decodeFilters prog false = .ok (some (Statement.zero :: shown), false) →
      ∀ n state, Machine.after (bpfStep stale prog data) .initial n = some state →
      ∀ arch, NamedUnder lib defaultArch pile shown state.pc arch →
      data.arch = arch ∨ (arch = defaultArch ∧
        ∀ m earlier ctx statement line, m < n →
          Machine.after (bpfStep stale prog data) .initial m = some earlier →
          shown[earlier.pc]? = some statement → statement.Conditional line →
          HeldContext lib defaultArch pile shown earlier.pc ctx → ctx.aStat ≠ .arch) := by
  intro claim
  have settled := claim twoNames two_names_knows 0xC000003E 0x1000 (fun _ => 0) compareTwice
    { zeroData with arch := 0xC000003E, nr := 1 } compare_twice_accepted compareTwiceShown rfl 3
    ⟨4, { Regs.initial with A := 1 }⟩ rfl 0x40000003
    ⟨_, _, _, "exit".toList, ⟨_, rfl, rfl⟩, rfl, ⟨rfl, rfl⟩, rfl, rfl, by decide, rfl⟩
  rcases settled with same | ⟨same, _⟩
  · exact absurd same (by decide)
  · exact absurd same (by decide)

theorem return_five_arch_kept (data : SeccompData) :
    RunArchKept (fun _ => 0) 0xC000003E returnFive data := by
  intro n state next _ moved zero
  obtain ⟨insn, here, exec⟩ := bpf_step_go _ returnFive data state next moved
  have member := exec_successor _ data state.pc state.regs insn next exec
  have sent : (next.pc, (0xC000003E : Word)) ∈ archSendsAt 0xC000003E returnFive state.pc := by
    rcases insn_at_return_five state.pc insn here with ⟨at_, rfl⟩ | ⟨at_, rfl⟩ | ⟨at_, rfl⟩ | ⟨at_, rfl⟩
    · rw [at_] at member ⊢
      simp only [Insn.successors, List.mem_singleton] at member
      rw [member]
      decide
    · rw [at_] at member ⊢
      simp [Insn.successors, Insn.targets] at member
      rcases member with same | same <;> rw [same] <;> decide
    · simp [Insn.successors, Insn.targets] at member
    · simp [Insn.successors, Insn.targets] at member
  exact absurd (zero _ sent) (by decide)

theorem named_under_determined_arch_return_five :
    ({ zeroData with nr := 5 } : SeccompData).arch = 0xC000003E ∨
      ((0xC000003E : Word) = 0xC000003E ∧
        ∀ m earlier ctx statement line, m < 1 →
          Machine.after (bpfStep (fun _ => 0) returnFive { zeroData with nr := 5 }) .initial m =
            some earlier →
          returnFiveShown[earlier.pc]? = some statement → statement.Conditional line →
          HeldContext twoNames 0xC000003E 0x1000 returnFiveShown earlier.pc ctx →
          ctx.aStat ≠ .arch) :=
  named_under_determined_arch twoNames two_names_knows 0xC000003E 0x1000 (fun _ => 0) returnFive
    { zeroData with nr := 5 } return_five_accepted returnFiveShown rfl (return_five_tracked _)
    (return_five_arch_kept _) 1 ⟨1, { Regs.initial with A := 5 }⟩ rfl 0xC000003E
    ⟨_, _, _, "fstat".toList, ⟨_, rfl, rfl⟩, rfl, ⟨rfl, rfl⟩, rfl, rfl, by decide, rfl⟩

end Ceccomp
