import Mathlib.Tactic.IntervalCases
import Ceccomp.Disasm.Tracking

/-!
What a run of an accepted program may conclude from the contexts of `render`: a
register tracked as the system call number or the architecture holds it. `NONE`
stands both for a context nothing was handed to and for a value nothing is known
of, so a fact found on one path may fill the entry another path left at `NONE`;
the runs spared by that are the sound ones.
-/

namespace Ceccomp

open Machine (Next)

def Stat.Agrees (data : SeccompData) (value : Word) : Stat → Prop
  | .sysnr => value = data.nr
  | .arch => value = data.arch
  | .none | .mixed => True

def Stat.Silent (stat : Stat) : Prop := stat = .none ∨ stat = .mixed

instance (stat : Stat) : Decidable stat.Silent := inferInstanceAs (Decidable (_ ∨ _))

theorem silent_agrees (data : SeccompData) (value : Word) (stat : Stat) (silent : stat.Silent) :
    stat.Agrees data value := by
  rcases silent with rfl | rfl <;> trivial

/-- The value of a place; a slot the run has not written has none. -/
def Regs.at (regs : Regs) : Place → Option Word
  | .A => some regs.A
  | .X => some regs.X
  | .mem slot => regs.mem slot

def StatCtx.Sound (ctx : StatCtx) (data : SeccompData) (regs : Regs) : Prop :=
  ∀ place value, regs.at place = some value → (ctx.stat place).Agrees data value

def Reg.place : Reg → Place
  | .A => .A
  | .X => .X

theorem set_at (regs : Regs) (value : Word) (dst : Reg) (place : Place) :
    (regs.set value dst).at place = if place = dst.place then some value else regs.at place := by
  cases dst <;> cases place <;> simp [Regs.at, Regs.set, Reg.place]

theorem store_at (regs : Regs) (slot : Nat) (value : Word) (place : Place) :
    (regs.store slot value).at place = if place = .mem slot then some value else regs.at place := by
  cases place with
  | A | X => simp [Regs.at, Regs.store]
  | mem other =>
      by_cases same : other = slot
      · simp [Regs.at, Regs.store, same]
      · simp [Regs.at, Regs.store, same]

theorem get_at (regs : Regs) (src : Reg) : regs.at src.place = some (regs.get src) := by
  cases src <;> rfl

def Insn.writes : Insn → Option Place
  | .ldAbs _ | .alu .. | .neg | .txa => some .A
  | .ldLen dst | .ldImm dst _ | .ldMem dst _ => some dst.place
  | .st _ k => some (.mem k.toNat)
  | .tax => some .X
  | .ja _ | .jmp .. | .retA | .retK _ => none

def Insn.learned (insn : Insn) (ctx : StatCtx) : Stat :=
  match insn with
  | .ldAbs k => if k.toNat / 4 = 0 then .sysnr else if k.toNat / 4 = 1 then .arch else .mixed
  | .ldMem _ k => ctx.stat (.mem k.toNat)
  | .st src _ => ctx.stat src.place
  | .tax => ctx.stat .A
  | .txa => ctx.stat .X
  | .ldLen _ | .ldImm .. | .alu .. | .neg | .ja _ | .jmp .. | .retA | .retK _ => .mixed

theorem attr_stat (k : Word) (inside : k.toNat < seccompDataSize) (ctx : StatCtx) :
    Render.rightStat { leftVar := .of .A, operator := .equal, rightVar := attrObj k } ctx =
      (Insn.ldAbs k).learned ctx := by
  simp only [seccompDataSize] at inside
  have small : k.toNat / 4 < 16 := by omega
  obtain ⟨type, found⟩ := abs_table_inside (k.toNat / 4) small
  simp only [Render.rightStat, attrObj, found, Insn.learned]
  generalize k.toNat / 4 = word at *
  interval_cases word <;> simp only [absTable, Option.some.injEq] at found <;>
    subst found <;> simp [Obj.of, Obj.at]

theorem assign_line_stat (line : AssignLine) (ctx after : StatCtx) (target : Place)
    (left : match target with
      | .A => line.leftVar.type = .A
      | .X => line.leftVar.type = .X
      | .mem slot => line.leftVar.type = .mem ∧ line.leftVar.data.toNat = slot)
    (moved : Render.assignLine line ctx = some after) (place : Place) :
    after.stat place = if target = place then Render.rightStat line ctx else ctx.stat place := by
  unfold Render.assignLine at moved
  cases target with
  | A | X =>
      simp only [left, Option.some.injEq] at moved
      subst moved
      cases place <;> simp [StatCtx.stat, setStat]
  | mem slot =>
      simp only [left.1, Option.some.injEq] at moved
      subst moved
      cases place with
      | A | X => simp [StatCtx.stat]
      | mem other =>
          by_cases same : slot = other
          · simp [StatCtx.stat, setStat, left.2, same]
          · simp [StatCtx.stat, left.2, same, Ne.symm same]

theorem assigned_stat (insn : Insn) (ctx : StatCtx) (place : Place)
    (inside : ∀ k, insn = .ldAbs k → k.toNat < seccompDataSize) :
    (insn.assigned ctx).stat place =
      if insn.writes = some place then insn.learned ctx else ctx.stat place := by
  cases shape : insn.line with
  | assign line =>
      obtain ⟨after, moved, _⟩ := assign_line_decoded insn line shape ctx
      have result : insn.assigned ctx = after := by simp [Insn.assigned, shape, moved]
      rw [result]
      cases insn <;>
        simp only [Insn.line, AssignLine.mk', Line.assign.injEq, reduceCtorEq] at shape <;>
        subst shape <;> simp only [Insn.writes, Option.some.injEq]
      case ldAbs k =>
        rw [assign_line_stat _ ctx after .A rfl moved, attr_stat k (inside k rfl)]
      case ldMem dst k =>
        rw [assign_line_stat _ ctx after dst.place (by cases dst <;> rfl) moved]
        rfl
      case ldLen dst | ldImm dst k =>
        rw [assign_line_stat _ ctx after dst.place (by cases dst <;> rfl) moved]
        rfl
      case st src k =>
        rw [assign_line_stat _ ctx after (.mem k.toNat) ⟨rfl, rfl⟩ moved]
        cases src <;> rfl
      case alu op src =>
        rw [assign_line_stat _ ctx after .A rfl moved]
        cases op <;> rfl
      case neg | txa =>
        rw [assign_line_stat _ ctx after .A rfl moved]
        rfl
      case tax =>
        rw [assign_line_stat _ ctx after .X rfl moved]
        rfl
  | jump line | return_ line | empty | eof | error line =>
      have result : insn.assigned ctx = ctx := by simp [Insn.assigned, shape]
      have nothing : insn.writes = none := by
        cases insn <;> simp only [Insn.line, AssignLine.mk', reduceCtorEq] at shape <;> rfl
      simp [result, nothing]

theorem words_tracked (data : SeccompData) (k value : Word) (loaded : data.load k.toNat = some value)
    (ctx : StatCtx) : ((Insn.ldAbs k).learned ctx).Agrees data value := by
  have aligned : data.words[k.toNat / 4]? = some value := by
    unfold SeccompData.load at loaded
    split at loaded
    · exact loaded
    · cases loaded
  simp only [Insn.learned]
  by_cases first : k.toNat / 4 = 0
  · rw [first] at aligned
    simpa [first, Stat.Agrees, SeccompData.words, eq_comm] using aligned
  · by_cases second : k.toNat / 4 = 1
    · rw [second] at aligned
      simpa [first, second, Stat.Agrees, SeccompData.words, eq_comm] using aligned
    · simp [first, second, Stat.Agrees]

theorem written_sound (data : SeccompData) (insn : Insn) (ctx : StatCtx) (regs after : Regs)
    (sound : ctx.Sound data regs) (inside : ∀ k, insn = .ldAbs k → k.toNat < seccompDataSize)
    (target : Place) (writes : insn.writes = some target) (stored : Word)
    (becomes : ∀ place, after.at place = if place = target then some stored else regs.at place)
    (agrees : (insn.learned ctx).Agrees data stored) : (insn.assigned ctx).Sound data after := by
  intro place value held
  rw [assigned_stat insn ctx place inside, writes]
  rw [becomes] at held
  by_cases here : place = target
  · subst here
    rw [if_pos rfl] at held ⊢
    cases held
    exact agrees
  · rw [if_neg here] at held
    rw [if_neg (by simpa using Ne.symm here)]
    exact sound place value held

/-- One instruction keeps its own context sound, unless it loads a slot the run has
not written and that is tracked. -/
theorem exec_sound (stale : Nat → Word) (data : SeccompData) (pc : Nat) (regs : Regs) (insn : Insn)
    (next : BpfState) (ctx : StatCtx) (sound : ctx.Sound data regs)
    (inside : ∀ k, insn = .ldAbs k → k.toNat < seccompDataSize)
    (loads : ∀ dst k, insn = .ldMem dst k → regs.mem k.toNat = none →
      (ctx.stat (.mem k.toNat)).Silent)
    (moved : insn.exec stale data pc regs = .go next) :
    (insn.assigned ctx).Sound data next.regs := by
  -- one place is written; every other keeps its value and its tracked name
  have written (target : Place) (writes : insn.writes = some target) (stored : Word)
      (becomes : ∀ place, next.regs.at place =
        if place = target then some stored else regs.at place)
      (agrees : (insn.learned ctx).Agrees data stored) : (insn.assigned ctx).Sound data next.regs :=
    written_sound data insn ctx regs next.regs sound inside target writes stored becomes agrees
  cases insn with
  | ldAbs k =>
      simp only [Insn.exec] at moved
      split at moved
      · next value loaded =>
          cases moved
          exact written .A rfl value (set_at regs value .A) (words_tracked data k value loaded ctx)
      · cases moved
  | ldMem dst k =>
      simp only [Insn.exec] at moved
      split at moved
      · cases moved
        refine written dst.place rfl _ (set_at regs _ dst) ?_
        -- an unwritten slot holds stale bytes, of which nothing may be known
        cases found : regs.mem k.toNat with
        | none => exact silent_agrees data _ _ (loads dst k rfl found)
        | some stored => exact sound (.mem k.toNat) stored found
      · cases moved
  | st src k =>
      simp only [Insn.exec] at moved
      split at moved
      · cases moved
        exact written (.mem k.toNat) rfl _ (store_at regs k.toNat _)
          (sound src.place _ (get_at regs src))
      · cases moved
  | tax =>
      cases moved
      exact written .X rfl _ (set_at regs _ .X) (sound .A _ rfl)
  | txa =>
      cases moved
      exact written .A rfl _ (set_at regs _ .A) (sound .X _ rfl)
  | ldLen dst | ldImm dst k =>
      cases moved
      exact written dst.place rfl _ (set_at regs _ dst) trivial
  | neg =>
      cases moved
      exact written .A rfl _ (set_at regs _ .A) trivial
  | alu op src =>
      simp only [Insn.exec] at moved
      split at moved
      · cases moved
      · cases moved
        exact written .A rfl _ (set_at regs _ .A) trivial
  | ja k | jmp op src jt jf =>
      cases moved
      intro place value held
      rw [assigned_stat _ ctx place inside, if_neg (by simp [Insn.writes])]
      exact sound place value held
  | retA | retK k => cases moved

/-- `set_stat` fills the `NONE` that filter `pc` has for a place with a fact found
at `via`. -/
def Fills (defaultArch : Word) (prog : List Filter) (place : Place) (via pc : Nat) : Prop :=
  (trackBefore defaultArch prog via).column place pc = .none ∧
    ∃ stat, (pc, stat) ∈ handSends defaultArch prog place via ∧ ¬ stat.Silent

/-- The step hands on no `NONE` that a later filter fills before the target's turn
comes, and loads no tracked slot that the run has not written. -/
structure StepTracked (defaultArch : Word) (prog : List Filter) (before next : BpfState) : Prop where
  unfilled : ∀ insn place, insnAt prog before.pc = some insn → (next.regs.at place).isSome →
    (insn.assigned (contextAt defaultArch prog before.pc)).stat place = .none →
    ∀ via, before.pc < via → via < next.pc → ¬ Fills defaultArch prog place via next.pc
  loads : ∀ dst k, insnAt prog before.pc = some (.ldMem dst k) → before.regs.mem k.toNat = none →
    ((contextAt defaultArch prog before.pc).stat (.mem k.toNat)).Silent

theorem merge_silent (old new : Stat) (oldSilent : old.Silent) (newSilent : new.Silent) :
    (old.merge new).Silent := by
  rcases oldSilent with rfl | rfl <;> rcases newSilent with rfl | rfl <;> decide

theorem merge_mixed (new : Stat) : Stat.mixed.merge new = .mixed := by
  cases new <;> rfl

theorem merge_none_silent (old : Stat) : (old.merge .none).Silent := by
  cases old <;> decide

theorem none_kept (defaultArch : Word) (prog : List Filter) (place : Place) (source pc : Nat)
    (insn : Insn) (here : insnAt prog source = some insn) (target : pc ∈ insn.handTargets source)
    (ahead : source < pc)
    (none : (insn.assigned (contextAt defaultArch prog source)).stat place = .none)
    (unfilled : ∀ via, source < via → via < pc → ¬ Fills defaultArch prog place via pc) :
    ((contextAt defaultArch prog pc).stat place).Silent := by
  have sends : ∀ stat, (pc, stat) ∈ handSends defaultArch prog place source ↔ stat = .none := by
    intro stat
    simp [handSends, here, none, target, eq_comm]
  have first : ((trackBefore defaultArch prog (source + 1)).column place pc).Silent := by
    rw [column_moves defaultArch prog place source pc ahead]
    refine Forward.absorb_settles Stat.merge Stat.Silent _ _ pc ?_ .none ((sends .none).mpr rfl)
    intro old stat member
    rw [(sends stat).mp member]
    exact merge_none_silent old
  refine Forward.entry_kept (fun n => (trackBefore defaultArch prog n).column place) Stat.Silent
    (source + 1) pc ahead first ?_
  intro via later inside silent
  rw [column_moves defaultArch prog place via pc inside]
  rcases silent with empty | mixed
  · refine Forward.absorb_kept Stat.merge Stat.Silent _ _ pc ?_ (Or.inl empty)
    intro old stat member oldSilent
    -- a fact sent to an entry that is `NONE` would fill it
    have statSilent : stat.Silent := by
      by_contra loud
      exact unfilled via (by omega) inside ⟨empty, stat, member, loud⟩
    exact merge_silent old stat oldSilent statSilent
  · refine Or.inr (Forward.absorb_invariant Stat.merge (· = .mixed) ?_ _ _ pc mixed)
    rintro old new rfl
    exact merge_mixed new

theorem merge_own (old new : Stat) (loud : ¬ new.Silent) :
    old.merge new = new ∨ old.merge new = .mixed := by
  cases old <;> cases new <;> simp_all [Stat.Silent, Stat.merge, setStat]

theorem merge_known (old new known : Stat) (loud : ¬ known.Silent)
    (knows : old = known ∨ old = .mixed) : old.merge new = known ∨ old.merge new = .mixed := by
  rcases knows with rfl | rfl
  · cases old <;> cases new <;> simp_all [Stat.Silent, Stat.merge, setStat]
  · exact Or.inr (merge_mixed new)

/-- A fact handed over is still there when the target's turn comes, or it is `MIXED`. -/
theorem fact_received (defaultArch : Word) (prog : List Filter) (place : Place) (source pc : Nat)
    (ahead : source < pc) (stat : Stat) (loud : ¬ stat.Silent)
    (sent : (pc, stat) ∈ handSends defaultArch prog place source) :
    (contextAt defaultArch prog pc).stat place = stat ∨
      (contextAt defaultArch prog pc).stat place = .mixed := by
  have received := Forward.table_received Stat.merge
    (fun n => (trackBefore defaultArch prog n).column place) (handSends defaultArch prog place)
    (column_moves defaultArch prog place)
    (fun held fact => ¬ fact.Silent → held = fact ∨ held = .mixed)
    (fun old new loud => merge_own old new loud)
    (fun old new known knows loud => merge_known old new known loud (knows loud))
    source pc stat ahead sent
  exact received loud

theorem mixed_received (defaultArch : Word) (prog : List Filter) (place : Place) (source pc : Nat)
    (ahead : source < pc) (sent : (pc, Stat.mixed) ∈ handSends defaultArch prog place source) :
    (contextAt defaultArch prog pc).stat place = .mixed := by
  have received := Forward.table_received Stat.merge
    (fun n => (trackBefore defaultArch prog n).column place) (handSends defaultArch prog place)
    (column_moves defaultArch prog place) (fun held fact => fact = .mixed → held = .mixed)
    (fun old new same => by subst same; cases old <;> rfl)
    (fun old new known knows same => by rw [knows same]; exact merge_mixed new)
    source pc .mixed ahead sent
  exact received rfl

/-- An accepted program small enough for the 16-bit numbers of its statements. -/
structure Accepted16 (prog : List Filter) : Prop where
  nonempty : prog ≠ []
  clean : CheckClean prog
  small : prog.length < 2 ^ 16

theorem accepted16_insn {prog : List Filter} (accepted : Accepted16 prog) (pc : Nat)
    (inside : pc < prog.length) : ∃ insn, insnAt prog pc = some insn ∧
      insn.Admissible pc prog.length (masksAt carried prog pc).memValid :=
  (check_clean_passes prog accepted.nonempty accepted.clean).1 pc inside

theorem accepted_load {prog : List Filter} (accepted : Accepted16 prog) (pc : Nat) (k : Word)
    (inside : pc < prog.length) (here : insnAt prog pc = some (.ldAbs k)) :
    k.toNat < seccompDataSize := by
  obtain ⟨insn, found, admissible⟩ := accepted16_insn accepted pc inside
  rw [here] at found
  cases found
  exact admissible.1

theorem successor_handed {prog : List Filter} (accepted : Accepted16 prog) (pc : Nat)
    (insn : Insn) (inside : pc < prog.length) (here : insnAt prog pc = some insn) (next : Nat)
    (member : next ∈ insn.successors pc) : next ∈ insn.handTargets pc := by
  cases insn with
  | ja k =>
      obtain ⟨other, found, admissible⟩ := accepted16_insn accepted pc inside
      rw [here] at found
      cases found
      have small := accepted.small
      simp only [Insn.Admissible] at admissible
      simp only [Insn.successors, Insn.targets, List.mem_singleton] at member
      simp only [Insn.handTargets, Insn.line, jaShown, Label.to, Bool.false_eq_true, ↓reduceIte,
        List.mem_singleton]
      rw [Nat.mod_eq_of_lt (by omega)]
      exact member
  | jmp op src jt jf =>
      simp only [Insn.successors, Insn.targets, List.mem_cons, List.not_mem_nil, or_false] at member
      simp only [Insn.handTargets, Insn.line, jmpShown, Label.to, ↓reduceIte, List.mem_cons,
        List.not_mem_nil, or_false]
      cases decide (jt = 0 ∧ jf ≠ 0) with
      | true => exact member.symm
      | false => exact member
  | retA | retK k => simp [Insn.successors, Insn.targets] at member
  | ldAbs k | ldLen dst | ldImm dst k | ldMem dst k | st src k | alu op src | neg | tax | txa =>
      exact member

/-- The context `render` holds for the state's instruction speaks the truth. -/
def ContextSound (defaultArch : Word) (prog : List Filter) (data : SeccompData)
    (state : BpfState) : Prop :=
  (contextAt defaultArch prog state.pc).Sound data state.regs

theorem context_sound_step (stale : Nat → Word) (defaultArch : Word) (prog : List Filter)
    (data : SeccompData) (accepted : Accepted16 prog) (before next : BpfState)
    (inside : before.pc < prog.length) (sound : ContextSound defaultArch prog data before)
    (tracked : StepTracked defaultArch prog before next)
    (moved : bpfStep stale prog data before = .go next) :
    ContextSound defaultArch prog data next := by
  obtain ⟨insn, here, exec⟩ := bpf_step_go stale prog data before next moved
  have member := exec_successor stale data before.pc before.regs insn next exec
  have ahead := successors_ahead insn before.pc next.pc member
  have target := successor_handed accepted before.pc insn inside here next.pc member
  have own := exec_sound stale data before.pc before.regs insn next
    (contextAt defaultArch prog before.pc) sound
    (fun k same => accepted_load accepted before.pc k inside (same ▸ here))
    (fun dst k same => tracked.loads dst k (same ▸ here)) exec
  intro place value held
  have agrees := own place value held
  generalize handed : (insn.assigned (contextAt defaultArch prog before.pc)).stat place = stat at agrees
  have sent : (next.pc, stat) ∈ handSends defaultArch prog place before.pc := by
    simp [handSends, here, handed, target]
  by_cases none : stat = .none
  · -- nothing was known: the entry must not have been filled since
    have silent := none_kept defaultArch prog place before.pc next.pc insn here target ahead
      (handed.trans none) (tracked.unfilled insn place here (by simp [held]) (handed.trans none))
    exact silent_agrees data value _ silent
  · by_cases mixed : stat = .mixed
    · rw [mixed] at sent
      rw [mixed_received defaultArch prog place before.pc next.pc ahead sent]
      trivial
    · have loud : ¬ stat.Silent := by rintro (same | same) <;> contradiction
      rcases fact_received defaultArch prog place before.pc next.pc ahead stat loud sent with
        same | same
      · rwa [same]
      · rw [same]
        trivial

theorem context_sound_initial (defaultArch : Word) (prog : List Filter) (data : SeccompData) :
    ContextSound defaultArch prog data .initial := by
  intro place value _
  have zero : (contextAt defaultArch prog 0).stat place = .none := by
    cases place <;> rfl
  rw [show BpfState.initial.pc = 0 from rfl, zero]
  trivial

/-- Every step the run takes leaves the tracking undisturbed. -/
def RunTracked (stale : Nat → Word) (defaultArch : Word) (prog : List Filter)
    (data : SeccompData) : Prop :=
  ∀ n state next, Machine.after (bpfStep stale prog data) .initial n = some state →
    bpfStep stale prog data state = .go next → StepTracked defaultArch prog state next

theorem context_sound_run (stale : Nat → Word) (defaultArch : Word) (prog : List Filter)
    (data : SeccompData) (accepted : Accepted16 prog)
    (tracked : RunTracked stale defaultArch prog data) (n : Nat) (state : BpfState)
    (reached : Machine.after (bpfStep stale prog data) .initial n = some state) :
    ContextSound defaultArch prog data state := by
  refine Machine.after_invariant_along (bpfStep stale prog data)
    (fun _ state => ContextSound defaultArch prog data state) .initial
    (context_sound_initial defaultArch prog data) ?_ n state reached
  intro n before next early moved sound
  exact context_sound_step stale defaultArch prog data accepted before next
    (clean_runs_inside stale prog data accepted.nonempty accepted.clean n before early) sound
    (tracked n before next early moved) moved

/-- The list of `render` when it starts handling the statement of the state. -/
def HeldContext (lib : Libseccomp) (defaultArch : Word) (pile : Nat) (shown : List Statement)
    (pc : Nat) (ctx : StatCtx) : Prop :=
  ∃ state, renderBefore lib defaultArch pile shown pc = some state ∧ state.list (pc + 1) = ctx

theorem held_context (lib : Libseccomp) (defaultArch : Word) (pile : Nat) (prog : List Filter)
    (accepted : Accepted16 prog) (shown : List Statement) (decodes : Decodes prog shown) (pc : Nat)
    (inside : pc < prog.length) (ctx : StatCtx)
    (held : HeldContext lib defaultArch pile shown pc ctx) : ctx = contextAt defaultArch prog pc := by
  obtain ⟨state, reached, rfl⟩ := held
  have list := render_before_list lib defaultArch pile prog shown decodes
    (fun pc inside => (accepted16_insn accepted pc inside).imp fun _ both => both.1) pc
    (Nat.le_of_lt inside) state reached
  rw [list, contextAt]

theorem accepted_decodes {prog : List Filter} (accepted : Accepted16 prog) (shown : List Statement)
    (decoded : decodeFilters prog false = .ok (some (Statement.zero :: shown), false)) :
    Decodes prog shown := by
  obtain ⟨other, decodes⟩ := clean_decodes prog accepted.nonempty accepted.clean accepted.small
  have same := decodes.decoded
  rw [decoded] at same
  cases same
  exact decodes

/-- Whatever `render` tracks of a register or of a slot the run has written holds in
every state of a run whose steps leave the tracking undisturbed. -/
theorem render_tracking_sound (lib : Libseccomp) (defaultArch : Word) (pile : Nat)
    (stale : Nat → Word) (prog : List Filter) (data : SeccompData) (accepted : Accepted16 prog)
    (shown : List Statement)
    (decoded : decodeFilters prog false = .ok (some (Statement.zero :: shown), false))
    (tracked : RunTracked stale defaultArch prog data) (n : Nat) (state : BpfState)
    (reached : Machine.after (bpfStep stale prog data) .initial n = some state) (ctx : StatCtx)
    (held : HeldContext lib defaultArch pile shown state.pc ctx) : ctx.Sound data state.regs := by
  have inside :=
    clean_runs_inside stale prog data accepted.nonempty accepted.clean n state reached
  rw [held_context lib defaultArch pile prog accepted shown (accepted_decodes accepted shown decoded)
    state.pc inside ctx held]
  exact context_sound_run stale defaultArch prog data accepted tracked n state reached

/-- Where all that lies between a step and its target are filters that hand nothing on,
nothing is filled. -/
theorem tracked_over_returns (stale : Nat → Word) (defaultArch : Word) (prog : List Filter)
    (data : SeccompData)
    (loads : ∀ (pc : Nat) dst k, insnAt prog pc ≠ some (.ldMem dst k))
    (between : ∀ (pc next via : Nat) insn, insnAt prog pc = some insn → next ∈ insn.successors pc →
      pc < via → via < next → ∀ place, handSends defaultArch prog place via = []) :
    RunTracked stale defaultArch prog data := by
  intro n state next _ moved
  obtain ⟨insn, here, exec⟩ := bpf_step_go stale prog data state next moved
  have member := exec_successor stale data state.pc state.regs insn next exec
  constructor
  · rintro _ place _ _ _ via later inside ⟨_, stat, sent, _⟩
    rw [between state.pc next.pc via insn here member later inside place] at sent
    simp at sent
  · intro dst k load
    exact absurd load (loads state.pc dst k)

/-- A libseccomp without any system call. -/
def noSyscalls : Libseccomp :=
  { resolveNumArch := fun _ _ => none, resolveNameArch := fun _ _ => 0xFFFFFFFF }

/-- `if ($A == 0) goto L3`, then `$A = $syscall_nr`, and both meet at `return $A`. -/
def loadOrSkip : List Filter := [⟨0x15, 1, 0, 0⟩, ⟨0x20, 0, 0, 0⟩, ⟨0x16, 0, 0, 0⟩]

def loadOrSkipShown : List Statement :=
  [(Insn.jmp .jeq (.k 0) 1 0).statement 1, (Insn.ldAbs 0).statement 2, Insn.retA.statement 3]

theorem load_or_skip_accepted : Accepted16 loadOrSkip :=
  ⟨by decide, ⟨by decide, by decide⟩, by decide⟩

/-- The jump hands on `NONE`, the load fills it, and the run that jumped holds 0. -/
theorem filled_none_unsound :
    ¬ ∀ (lib : Libseccomp) (defaultArch : Word) (pile : Nat) (stale : Nat → Word)
      (prog : List Filter) (data : SeccompData), Accepted16 prog → ∀ (shown : List Statement),
      decodeFilters prog false = .ok (some (Statement.zero :: shown), false) →
      ∀ n state, Machine.after (bpfStep stale prog data) .initial n = some state →
      ∀ ctx, HeldContext lib defaultArch pile shown state.pc ctx → ctx.Sound data state.regs := by
  intro claim
  have sound := claim noSyscalls 0xC000003E 0 (fun _ => 0) loadOrSkip { zeroData with nr := 5 }
    load_or_skip_accepted loadOrSkipShown rfl 1 ⟨2, Regs.initial⟩ rfl _ ⟨_, rfl, rfl⟩
  have same : (0 : Word) = 5 := sound .A 0 rfl
  exact absurd same (by decide)

def returnFive : List Filter :=
  [⟨0x20, 0, 0, 0⟩, ⟨0x15, 0, 1, 5⟩, ⟨0x16, 0, 0, 0⟩, ⟨0x06, 0, 0, 0⟩]

def returnFiveShown : List Statement :=
  [(Insn.ldAbs 0).statement 1, (Insn.jmp .jeq (.k 5) 0 1).statement 2, Insn.retA.statement 3,
    (Insn.retK 0).statement 4]

theorem return_five_accepted : Accepted16 returnFive :=
  ⟨by decide, ⟨by decide, by decide⟩, by decide⟩

theorem insn_at_return_five (pc : Nat) (insn : Insn) (here : insnAt returnFive pc = some insn) :
    (pc = 0 ∧ insn = .ldAbs 0) ∨ (pc = 1 ∧ insn = .jmp .jeq (.k 5) 0 1) ∨
      (pc = 2 ∧ insn = .retA) ∨ (pc = 3 ∧ insn = .retK 0) := by
  match pc with
  | 0 | 1 | 2 | 3 => simpa [insnAt, returnFive, Filter.insn?, eq_comm] using here
  | pc + 4 => simp [insnAt, returnFive] at here

theorem return_five_tracked (data : SeccompData) :
    RunTracked (fun _ => 0) 0xC000003E returnFive data := by
  apply tracked_over_returns
  · intro pc dst k load
    rcases insn_at_return_five pc _ load with ⟨_, same⟩ | ⟨_, same⟩ | ⟨_, same⟩ | ⟨_, same⟩ <;>
      cases same
  · intro pc next via insn here member later inside place
    rcases insn_at_return_five pc insn here with ⟨rfl, rfl⟩ | ⟨rfl, rfl⟩ | ⟨rfl, rfl⟩ | ⟨rfl, rfl⟩
    · simp only [Insn.successors, List.mem_singleton] at member
      omega
    · simp [Insn.successors, Insn.targets] at member
      obtain rfl : via = 2 := by omega
      rfl
    · simp [Insn.successors, Insn.targets] at member
    · simp [Insn.successors, Insn.targets] at member

theorem render_tracking_sound_return_five :
    ∃ ctx, HeldContext noSyscalls 0xC000003E 64 returnFiveShown 2 ctx ∧ ctx.aStat = .sysnr ∧
      ctx.Sound { zeroData with nr := 5 } { Regs.initial with A := 5 } := by
  refine ⟨_, ⟨_, rfl, rfl⟩, rfl, ?_⟩
  exact render_tracking_sound noSyscalls 0xC000003E 64 (fun _ => 0) returnFive
    { zeroData with nr := 5 } return_five_accepted returnFiveShown rfl (return_five_tracked _) 2
    ⟨2, { Regs.initial with A := 5 }⟩ rfl _ ⟨_, rfl, rfl⟩

end Ceccomp
