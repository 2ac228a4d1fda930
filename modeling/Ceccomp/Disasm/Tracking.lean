import Ceccomp.Disasm.Render

/-!
The lists of `render` on an accepted program, column by column: what each
instruction does to its own context and what it hands to later ones. Contexts are
looked up by instruction pointer, one less than the number of the statement.
-/

namespace Ceccomp

inductive Place where
  | A | X | mem (slot : Nat)
  deriving DecidableEq, Repr

def StatCtx.stat (ctx : StatCtx) : Place → Stat
  | .A => ctx.aStat
  | .X => ctx.xStat
  | .mem slot => ctx.memStat slot

def Stat.merge (old new : Stat) : Stat := setStat old new false

def StatList.column (list : StatList) (place : Place) : Nat → Stat :=
  fun idx => (list (idx + 1)).stat place

def StatList.archs (list : StatList) : Nat → Word := fun idx => (list (idx + 1)).arch

def Insn.assigned (insn : Insn) (ctx : StatCtx) : StatCtx :=
  match insn.line with
  | .assign line => (Render.assignLine line ctx).getD ctx
  | _ => ctx

def Insn.handTargets (pc : Nat) (insn : Insn) : List Nat :=
  match insn.line with
  | .assign _ => [pc + 1]
  | .jump line =>
      if line.ifCondition then [pc + 1 + line.jt.codeNr, pc + 1 + line.jf.codeNr]
      else [pc + 1 + line.jt.codeNr]
  | _ => []

/-- The architectures `set_arch` hands on, with the instructions that get them. -/
def Insn.archSends (pc : Nat) (insn : Insn) (ctx : StatCtx) : List (Nat × Word) :=
  match insn.line with
  | .assign _ => [(pc + 1, ctx.arch)]
  | .jump line =>
      let jt := pc + 1 + line.jt.codeNr
      let jf := pc + 1 + line.jf.codeNr
      if !line.ifCondition then [(jt, ctx.arch)]
      else if ctx.aStat ≠ .arch then [(jt, ctx.arch), (jf, ctx.arch)]
      else if line.comparator = .equalEqual then [(jt, line.cmpobj.data), (jf, archMixed)]
      else if line.comparator = .bangEqual then [(jf, line.cmpobj.data), (jt, archMixed)]
      else []
  | _ => []

theorem set_ctx_column (list : StatList) (target src : Nat) (place : Place) :
    (setCtx list (target + 1) src false).column place =
      Forward.absorbOne Stat.merge (list.column place) (target, (list src).stat place) := by
  funext idx
  by_cases here : idx = target
  · subst here
    cases place <;> simp [StatList.column, setCtx, Forward.absorbOne, StatCtx.stat, Stat.merge]
  · simp [StatList.column, setCtx, Forward.absorbOne, here]

theorem set_ctx_archs (list : StatList) (dest src : Nat) (force : Bool) (idx : Nat) :
    (setCtx list dest src force idx).arch = (list idx).arch := by
  by_cases here : idx = dest
  · subst here
    simp [setCtx]
  · simp [setCtx, here]

theorem set_ctx_other (list : StatList) (dest src idx : Nat) (force : Bool) (apart : idx ≠ dest) :
    setCtx list dest src force idx = list idx := by
  simp [setCtx, apart]

theorem set_arch_stat (list : StatList) (dest : Nat) (src : Word) (idx : Nat) (place : Place) :
    (setArch list dest src idx).stat place = (list idx).stat place := by
  by_cases here : idx = dest
  · subst here
    cases place <;> simp [setArch, StatCtx.stat]
  · simp [setArch, here]

theorem set_arch_column (list : StatList) (dest : Nat) (src : Word) (place : Place) :
    (setArch list dest src).column place = list.column place := by
  funext idx
  exact set_arch_stat list dest src (idx + 1) place

theorem set_arch_archs (list : StatList) (target : Nat) (src : Word) :
    (setArch list (target + 1) src).archs =
      Forward.absorbOne mergeArch list.archs (target, src) := by
  funext idx
  by_cases here : idx = target
  · subst here
    simp [StatList.archs, setArch, Forward.absorbOne]
  · simp [StatList.archs, setArch, Forward.absorbOne, here]

theorem set_arch_other (list : StatList) (dest idx : Nat) (src : Word) (apart : idx ≠ dest) :
    setArch list dest src idx = list idx := by
  simp [setArch, apart]

/-- How the columns move when `render` handles the instruction at `pc`. -/
structure Moves (pc : Nat) (insn : Insn) (before after : StatList) : Prop where
  stats : ∀ place idx, pc < idx → after.column place idx =
    Forward.absorb Stat.merge (before.column place)
      ((insn.handTargets pc).map fun target =>
        (target, (insn.assigned (before (pc + 1))).stat place)) idx
  archs : after.archs =
    Forward.absorb mergeArch before.archs (insn.archSends pc (before (pc + 1)))

theorem assign_moves (pc : Nat) (insn : Insn) (line : AssignLine) (before : StatList)
    (ctx : StatCtx) (assigns : insn.line = .assign line)
    (moved : Render.assignLine line (before (pc + 1)) = some ctx) (arch : ctx.arch = (before (pc + 1)).arch) :
    let changed : StatList := Function.update before (pc + 1) ctx
    let handed := setCtx changed (pc + 1 + 1) (pc + 1) false
    Moves pc insn before (setArch handed (pc + 1 + 1) (handed (pc + 1)).arch) := by
  intro changed handed
  have own : handed (pc + 1) = ctx := by
    rw [show handed (pc + 1) = changed (pc + 1) from set_ctx_other _ _ _ _ _ (by omega)]
    simp [changed]
  have targets : insn.handTargets pc = [pc + 1] := by simp [Insn.handTargets, assigns]
  have result : insn.assigned (before (pc + 1)) = ctx := by simp [Insn.assigned, assigns, moved]
  constructor
  · intro place idx later
    rw [set_arch_column, set_ctx_column, targets, result]
    simp only [List.map_cons, List.map_nil, Forward.absorb, List.foldl_cons, List.foldl_nil]
    have same : changed (pc + 1) = ctx := by simp [changed]
    rw [same]
    have kept : StatList.column changed place idx = before.column place idx := by
      simp [StatList.column, changed, show idx ≠ pc by omega]
    exact Forward.absorb_congr Stat.merge _ _ [(pc + 1, ctx.stat place)] idx kept
  · have sends : insn.archSends pc (before (pc + 1)) = [(pc + 1, ctx.arch)] := by
      simp [Insn.archSends, assigns, arch]
    have table : handed.archs = before.archs := by
      funext idx
      simp only [StatList.archs, handed, set_ctx_archs, changed]
      by_cases here : idx = pc
      · subst here
        simp [arch]
      · simp [here]
    rw [set_arch_archs, own, sends, table]
    rfl

theorem ja_moves (pc : Nat) (insn : Insn) (line : JumpLine) (before : StatList)
    (jumps : insn.line = .jump line) (always : line.ifCondition = false) :
    Moves pc insn before (Render.trackJump line (pc + 1) before) := by
  have own : setCtx before (pc + 1 + line.jt.codeNr + 1) (pc + 1) false (pc + 1) =
      before (pc + 1) := set_ctx_other _ _ _ _ _ (by omega)
  simp only [Render.trackJump, always, Bool.not_false, ↓reduceIte]
  constructor
  · intro place idx _
    rw [set_arch_column, set_ctx_column]
    simp [Insn.handTargets, Insn.assigned, jumps, always, Forward.absorb]
  · rw [set_arch_archs, own]
    have table : (setCtx before (pc + 1 + line.jt.codeNr + 1) (pc + 1) false).archs = before.archs :=
      funext fun idx => set_ctx_archs _ _ _ _ _
    simp [Insn.archSends, jumps, always, Forward.absorb, table]

theorem jump_moves (pc : Nat) (insn : Insn) (line : JumpLine) (before : StatList)
    (jumps : insn.line = .jump line) (conditional : line.ifCondition = true) :
    Moves pc insn before (Render.trackJump line (pc + 1) before) := by
  have first : setCtx before (pc + 1 + line.jt.codeNr + 1) (pc + 1) false (pc + 1) =
      before (pc + 1) := set_ctx_other _ _ _ _ _ (by omega)
  simp only [Render.trackJump, conditional, Bool.not_true, Bool.false_eq_true, ↓reduceIte]
  generalize handedIs : setCtx (setCtx before (pc + 1 + line.jt.codeNr + 1) (pc + 1) false)
    (pc + 1 + line.jf.codeNr + 1) (pc + 1) false = handed
  have own : handed (pc + 1) = before (pc + 1) := by
    rw [← handedIs, set_ctx_other _ _ _ _ _ (by omega), first]
  have table : handed.archs = before.archs := by
    funext idx
    simp only [← handedIs, StatList.archs, set_ctx_archs]
  have column (place : Place) : handed.column place =
      Forward.absorb Stat.merge (before.column place)
        [(pc + 1 + line.jt.codeNr, (before (pc + 1)).stat place),
          (pc + 1 + line.jf.codeNr, (before (pc + 1)).stat place)] := by
    rw [← handedIs, set_ctx_column, set_ctx_column, first]
    rfl
  have stats (after : StatList) (same : ∀ place, after.column place = handed.column place)
      (place : Place) (idx : Nat) : after.column place idx =
        Forward.absorb Stat.merge (before.column place)
          ((insn.handTargets pc).map fun target =>
            (target, (insn.assigned (before (pc + 1))).stat place)) idx := by
    rw [same, column]
    simp [Insn.handTargets, Insn.assigned, jumps, conditional]
  rw [own]
  by_cases tracked : (before (pc + 1)).aStat = .arch
  · rw [if_neg (by simp [tracked])]
    by_cases equal : line.comparator = .equalEqual
    · simp only [equal, true_or, ↓reduceIte]
      refine ⟨fun place idx _ => stats _ (fun place => by simp only [set_arch_column]) place idx, ?_⟩
      rw [set_arch_archs, set_arch_archs, table]
      simp [Insn.archSends, jumps, conditional, tracked, equal, Forward.absorb]
    · by_cases bang : line.comparator = .bangEqual
      · simp only [bang, reduceCtorEq, or_true, ↓reduceIte]
        refine ⟨fun place idx _ => stats _ (fun place => by simp only [set_arch_column]) place idx, ?_⟩
        rw [set_arch_archs, set_arch_archs, table]
        simp [Insn.archSends, jumps, conditional, tracked, bang, Forward.absorb]
      · rw [if_neg (by simp [equal, bang])]
        refine ⟨fun place idx _ => stats _ (fun _ => rfl) place idx, ?_⟩
        simp [Insn.archSends, jumps, conditional, tracked, equal, bang, Forward.absorb, table]
  · rw [if_pos tracked]
    refine ⟨fun place idx _ => stats _ (fun place => by simp only [set_arch_column]) place idx, ?_⟩
    rw [set_arch_archs, set_arch_archs, set_arch_other _ _ _ _ (by omega), own, table]
    simp [Insn.archSends, jumps, conditional, tracked, Forward.absorb]

def Insn.track (pc : Nat) (insn : Insn) (list : StatList) : StatList :=
  match insn.line with
  | .assign line =>
      let ctx := (Render.assignLine line (list (pc + 1))).getD (list (pc + 1))
      let changed : StatList := Function.update list (pc + 1) ctx
      let handed := setCtx changed (pc + 1 + 1) (pc + 1) false
      setArch handed (pc + 1 + 1) (handed (pc + 1)).arch
  | .jump line => Render.trackJump line (pc + 1) list
  | _ => list

theorem assign_line_decoded (insn : Insn) (line : AssignLine) (assigns : insn.line = .assign line)
    (ctx : StatCtx) : ∃ after, Render.assignLine line ctx = some after ∧ after.arch = ctx.arch := by
  have left : line.leftVar.type = .A ∨ line.leftVar.type = .X ∨ line.leftVar.type = .mem := by
    cases insn <;> simp only [Insn.line, AssignLine.mk', Line.assign.injEq, reduceCtorEq] at assigns
    all_goals subst assigns
    case ldLen dst | ldImm dst k | ldMem dst k => cases dst <;> simp [Obj.of, Reg.type]
    all_goals simp [Obj.of, Obj.at]
  unfold Render.assignLine
  rcases left with left | left | left <;> simp [left]

theorem track_moves (pc : Nat) (insn : Insn) (list : StatList) :
    Moves pc insn list (insn.track pc list) := by
  cases shape : insn.line with
  | assign line =>
      obtain ⟨ctx, moved, arch⟩ := assign_line_decoded insn line shape (list (pc + 1))
      simpa [Insn.track, shape, moved] using assign_moves pc insn line list ctx shape moved arch
  | jump line =>
      simp only [Insn.track, shape]
      cases conditional : line.ifCondition with
      | true => exact jump_moves pc insn line list shape conditional
      | false => exact ja_moves pc insn line list shape conditional
  | return_ line | empty | eof | error line =>
      simp only [Insn.track, shape]
      constructor
      · intro place idx _
        simp [Insn.handTargets, shape, Forward.absorb_nil]
      · simp [Insn.archSends, shape, Forward.absorb_nil]

theorem render_statement_list (lib : Libseccomp) (defaultArch : Word) (pc : Nat) (insn : Insn)
    (state next : RenderState) (shown : Statement)
    (rendered : renderStatement lib defaultArch (insn.statement (pc + 1)) state = some (shown, next)) :
    next.list = insn.track pc state.list := by
  have line : (insn.statement (pc + 1)).line = insn.line := rfl
  have number : (insn.statement (pc + 1)).codeNr = pc + 1 := rfl
  simp only [renderStatement, line, number] at rendered
  cases shape : insn.line with
  | assign assigned =>
      obtain ⟨ctx, moved, _⟩ := assign_line_decoded insn assigned shape (state.list (pc + 1))
      simp only [shape, moved, Option.map_some, Option.some.injEq, Prod.mk.injEq] at rendered
      simp [Insn.track, shape, moved, ← rendered.2]
  | jump jumped =>
      simp only [shape, Option.map_eq_some_iff, Prod.mk.injEq] at rendered
      obtain ⟨_, _, _, rfl⟩ := rendered
      simp [Insn.track, shape]
  | return_ returned =>
      simp only [shape, Option.some.injEq, Prod.mk.injEq] at rendered
      simp [Insn.track, shape, rendered.2]
  | empty | eof | error _ => simp [shape] at rendered

def trackBefore (defaultArch : Word) (prog : List Filter) : Nat → StatList
  | 0 => startList defaultArch
  | pc + 1 =>
      match insnAt prog pc with
      | none => trackBefore defaultArch prog pc
      | some insn => insn.track pc (trackBefore defaultArch prog pc)

def contextAt (defaultArch : Word) (prog : List Filter) (pc : Nat) : StatCtx :=
  trackBefore defaultArch prog pc (pc + 1)

theorem render_from_append (lib : Libseccomp) (defaultArch : Word) (first rest : List Statement)
    (state : RenderState) :
    renderFrom lib defaultArch (first ++ rest) state =
      (renderFrom lib defaultArch first state).bind fun (shown, middle) =>
        (renderFrom lib defaultArch rest middle).map fun (later, last) => (shown ++ later, last) := by
  induction first generalizing state with
  | nil =>
      simp only [List.nil_append, renderFrom, Option.bind_some]
      cases renderFrom lib defaultArch rest state <;> rfl
  | cons statement first ih =>
      simp only [List.cons_append, renderFrom]
      cases renderStatement lib defaultArch statement state with
      | none => rfl
      | some one =>
          simp only [ih]
          cases renderFrom lib defaultArch first one.2 with
          | none => rfl
          | some more =>
              simp only [Option.bind_some, Option.map_some]
              cases renderFrom lib defaultArch rest more.2 <;> rfl

theorem render_before_list (lib : Libseccomp) (defaultArch : Word) (pile : Nat)
    (prog : List Filter) (shown : List Statement) (decodes : Decodes prog shown)
    (valid : ∀ pc, pc < prog.length → ∃ insn, insnAt prog pc = some insn) (n : Nat)
    (inside : n ≤ prog.length) (state : RenderState)
    (reached : renderBefore lib defaultArch pile shown n = some state) :
    state.list = trackBefore defaultArch prog n := by
  induction n generalizing state with
  | zero =>
      simp only [renderBefore, List.take_zero, renderFrom, Option.map_some, Option.some.injEq] at reached
      simp [← reached, trackBefore]
  | succ n ih =>
      obtain ⟨insn, here⟩ := valid n inside
      have found := decodes.each n insn here
      simp only [renderBefore, List.take_add_one, found, Option.toList_some, render_from_append] at reached
      cases before : renderFrom lib defaultArch (shown.take n)
          { list := startList defaultArch, pile } with
      | none => simp [before] at reached
      | some done =>
          have tracked := ih (by omega) done.2 (by simp [renderBefore, before])
          simp only [before, Option.bind_some, renderFrom] at reached
          cases rendered : renderStatement lib defaultArch (insn.statement (n + 1)) done.2 with
          | none => simp [rendered] at reached
          | some one =>
              simp only [rendered, Option.map_some, Option.some.injEq] at reached
              have list := render_statement_list lib defaultArch n insn done.2 one.2 one.1 rendered
              rw [← reached, list, tracked]
              simp [trackBefore, here]

theorem track_before_moves (defaultArch : Word) (prog : List Filter) (pc : Nat) (insn : Insn)
    (here : insnAt prog pc = some insn) :
    Moves pc insn (trackBefore defaultArch prog pc) (trackBefore defaultArch prog (pc + 1)) := by
  simpa [trackBefore, here] using track_moves pc insn (trackBefore defaultArch prog pc)

def handSends (defaultArch : Word) (prog : List Filter) (place : Place) (pc : Nat) :
    List (Nat × Stat) :=
  match insnAt prog pc with
  | none => []
  | some insn => (insn.handTargets pc).map fun target =>
      (target, (insn.assigned (contextAt defaultArch prog pc)).stat place)

def archSendsAt (defaultArch : Word) (prog : List Filter) (pc : Nat) : List (Nat × Word) :=
  match insnAt prog pc with
  | none => []
  | some insn => insn.archSends pc (contextAt defaultArch prog pc)

theorem column_moves (defaultArch : Word) (prog : List Filter) (place : Place) (pc idx : Nat)
    (later : pc < idx) :
    (trackBefore defaultArch prog (pc + 1)).column place idx =
      Forward.absorb Stat.merge ((trackBefore defaultArch prog pc).column place)
        (handSends defaultArch prog place pc) idx := by
  cases here : insnAt prog pc with
  | none => simp [handSends, here, trackBefore, Forward.absorb_nil]
  | some insn =>
      rw [(track_before_moves defaultArch prog pc insn here).stats place idx later]
      simp [handSends, here, contextAt]

theorem archs_move (defaultArch : Word) (prog : List Filter) (pc : Nat) :
    (trackBefore defaultArch prog (pc + 1)).archs =
      Forward.absorb mergeArch (trackBefore defaultArch prog pc).archs
        (archSendsAt defaultArch prog pc) := by
  cases here : insnAt prog pc with
  | none => simp [archSendsAt, here, trackBefore, Forward.absorb_nil]
  | some insn =>
      rw [(track_before_moves defaultArch prog pc insn here).archs]
      simp [archSendsAt, here, contextAt]

end Ceccomp
