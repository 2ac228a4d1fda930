import Ceccomp.Disasm.ArchTracking

/-!
What `render` may put in the place of an operand. A number stays itself or turns
into a name that denotes it; the register `$X` has no number, but its object
carries a zero, and `try_resolve_sysnr` does not look at the type.
-/

namespace Ceccomp

inductive ShownAs (lib : Libseccomp) (defaultArch value : Word) : Obj → Prop where
  | number : ShownAs lib defaultArch value (.number value)
  | arch (internal : TokenType) (known : scmpArchToInternalArch value = some internal) :
      ShownAs lib defaultArch value
        { type := .identifier, data := value, literal := some internal.spelling }
  | syscall (name : Text) (resolved : lib.resolveNumArch defaultArch value = some name) :
      ShownAs lib defaultArch value { type := .identifier, data := value, literal := some name }
  | foreign (arch : Word) (internal : TokenType) (name : Text)
      (known : scmpArchToInternalArch arch = some internal)
      (resolved : lib.resolveNumArch arch value = some name) :
      ShownAs lib defaultArch value
        { type := .identifier, data := value, literal := some (internal.spelling ++ '.' :: name) }

def SameOperand (lib : Libseccomp) (defaultArch : Word) (before after : Obj) : Prop :=
  if before.type = .X then after = before else ShownAs lib defaultArch before.data after

/-- Nothing changed, but perhaps how the operand of a conditional jump is shown. -/
def Renamed (lib : Libseccomp) (defaultArch : Word) (before after : Statement) : Prop :=
  (∀ line, ¬ before.Conditional line) ∧ after = before ∨
    ∃ line obj, before.Conditional line ∧ SameOperand lib defaultArch line.cmpobj obj ∧
      after = { before with line := .jump { line with cmpobj := obj } }

def MeaningKept (lib : Libseccomp) (defaultArch : Word) (before after : List Statement) : Prop :=
  after.length = before.length ∧
    ∀ (pc : Nat) (statement : Statement), before[pc]? = some statement →
      ∃ shown, after[pc]? = some shown ∧ Renamed lib defaultArch statement shown

/-- A jump that compares with `$X` is handled while `A` is tracked as the system call
number, under an architecture that has a system call 0. -/
def XOperandNamed (lib : Libseccomp) (defaultArch : Word) (pile : Nat)
    (statements : List Statement) : Prop :=
  ∃ (pc : Nat) (statement : Statement) (line : JumpLine) (ctx : StatCtx) (name : Text),
    statements[pc]? = some statement ∧
    statement.Conditional line ∧ line.cmpobj.type = .X ∧
    HeldContext lib defaultArch pile statements pc ctx ∧
    ctx.aStat = .sysnr ∧ ctx.arch ≠ archNone ∧
    lib.resolveNumArch ctx.arch line.cmpobj.data = some name

theorem render_from_each (lib : Libseccomp) (defaultArch : Word) (statements : List Statement)
    (start last : RenderState) (after : List Statement)
    (rendered : renderFrom lib defaultArch statements start = some (after, last)) :
    after.length = statements.length ∧
      ∀ (pc : Nat) (statement : Statement), statements[pc]? = some statement →
        ∃ state next shown,
          (renderFrom lib defaultArch (statements.take pc) start).map Prod.snd = some state ∧
          renderStatement lib defaultArch statement state = some (shown, next) ∧
          after[pc]? = some shown := by
  induction statements generalizing start after with
  | nil =>
      simp only [renderFrom, Option.some.injEq, Prod.mk.injEq] at rendered
      simp [← rendered.1]
  | cons first rest ih =>
      simp only [renderFrom] at rendered
      cases one : renderStatement lib defaultArch first start with
      | none => simp [one] at rendered
      | some handled =>
          simp only [one, Option.map_eq_some_iff, Prod.mk.injEq] at rendered
          obtain ⟨more, laterRendered, rfl, rfl⟩ := rendered
          obtain ⟨length, each⟩ := ih handled.2 more.1 laterRendered
          refine ⟨by simp [length], ?_⟩
          intro pc statement found
          cases pc with
          | zero =>
              simp only [List.getElem?_cons_zero, Option.some.injEq] at found
              subst found
              exact ⟨start, handled.2, handled.1, rfl, one, rfl⟩
          | succ pc =>
              simp only [List.getElem?_cons_succ] at found
              obtain ⟨state, next, shown, reached, step, there⟩ := each pc statement found
              refine ⟨state, next, shown, ?_, step, by simpa using there⟩
              simp only [List.take_succ_cons, renderFrom, one]
              simpa [Option.map_map] using reached

theorem track_jump_own (line : JumpLine) (pc : Nat) (list : StatList) :
    Render.trackJump line pc list pc = list pc := by
  have ctx (other : StatList) (codeNr : Nat) (src : Nat) :
      setCtx other (pc + codeNr + 1) src false pc = other pc :=
    set_ctx_other _ _ _ _ _ (by omega)
  have arch (other : StatList) (codeNr : Nat) (value : Word) :
      setArch other (pc + codeNr + 1) value pc = other pc :=
    set_arch_other _ _ _ _ (by omega)
  unfold Render.trackJump
  split
  · simp only [arch, ctx]
  · dsimp only
    split
    · simp only [arch, ctx]
    · split
      · split <;> simp only [arch, ctx]
      · simp only [ctx]

theorem resolve_arch_shown (lib : Libseccomp) (defaultArch value : Word) :
    ShownAs lib defaultArch value (Render.tryResolveArch (.number value)) := by
  unfold Render.tryResolveArch scmpArchToInternalStr
  cases known : scmpArchToInternalArch value with
  | none => simpa [Obj.number, known] using ShownAs.number
  | some internal => simpa [Obj.number, known] using ShownAs.arch internal known

theorem resolve_arch_x : Render.tryResolveArch (.of .X) = .of .X := by
  decide

/-- The operand `try_resolve_sysnr` leaves: the old one, or a name it carries under the
architecture of the context. -/
theorem resolve_sysnr_cases (lib : Libseccomp) (knows : lib.KnowsArchs) (defaultArch curArch : Word)
    (pile left : Nat) (cmpobj after : Obj)
    (resolved : Render.tryResolveSysnr lib defaultArch curArch pile cmpobj = some (after, left)) :
    (after = cmpobj ∧ ∀ name, curArch ≠ archNone →
        lib.resolveNumArch curArch cmpobj.data ≠ some name) ∨
      ∃ name internal, curArch ≠ archNone ∧ lib.resolveNumArch curArch cmpobj.data = some name ∧
        scmpArchToInternalArch curArch = some internal ∧
        after = { cmpobj with
          type := .identifier
          literal := some (if curArch = defaultArch then name
            else internal.spelling ++ '.' :: name) } := by
  unfold Render.tryResolveSysnr at resolved
  by_cases empty : curArch = archNone
  · rw [if_pos empty] at resolved
    cases resolved
    exact Or.inl ⟨rfl, fun name real => absurd empty real⟩
  · rw [if_neg empty] at resolved
    cases found : lib.resolveNumArch curArch cmpobj.data with
    | none =>
        simp only [found, Option.some.injEq, Prod.mk.injEq] at resolved
        exact Or.inl ⟨resolved.1.symm, by simp⟩
    | some name =>
        obtain ⟨internal, known⟩ := knows curArch cmpobj.data name empty found
        refine Or.inr ⟨name, internal, empty, rfl, known, ?_⟩
        simp only [found, Option.map_eq_some_iff, Prod.mk.injEq] at resolved
        obtain ⟨⟨literal, rest⟩, persisted, rfl, rfl⟩ := resolved
        by_cases home : curArch = defaultArch
        · simp only [home, ne_eq, not_true_eq_false, ↓reduceIte, Render.persistObject] at persisted ⊢
          split at persisted
          · cases persisted
            rfl
          · cases persisted
        · simp only [home, ne_eq, not_false_eq_true, ↓reduceIte, scmpArchToInternalStr, known,
            Option.map_some, Render.persistObject] at persisted ⊢
          split at persisted
          · cases persisted
            rfl
          · cases persisted

theorem same_operand_x (lib : Libseccomp) (defaultArch : Word) (obj : Obj) :
    SameOperand lib defaultArch Src.x.obj obj ↔ obj = Src.x.obj := by
  simp [SameOperand, Src.obj, Obj.of]

theorem same_operand_k (lib : Libseccomp) (defaultArch value : Word) (obj : Obj) :
    SameOperand lib defaultArch (Src.k value).obj obj ↔ ShownAs lib defaultArch value obj := by
  simp [SameOperand, Src.obj, Obj.number]

theorem operand_cases (lib : Libseccomp) (knows : lib.KnowsArchs) (defaultArch : Word)
    (ctx : StatCtx) (pile left : Nat) (line after : JumpLine) (src : Src)
    (conditional : line.ifCondition = true) (operand : line.cmpobj = src.obj)
    (resolved : Render.resolveOperand lib defaultArch ctx pile line = some (after, left)) :
    ∃ obj, after = { line with cmpobj := obj } ∧
      (SameOperand lib defaultArch line.cmpobj obj ∨
        (src = .x ∧ obj.type = .identifier ∧ ctx.aStat = .sysnr ∧ ctx.arch ≠ archNone ∧
          ∃ name, lib.resolveNumArch ctx.arch line.cmpobj.data = some name)) ∧
      (src = .x → ctx.aStat = .sysnr → ctx.arch ≠ archNone →
        ∀ name, lib.resolveNumArch ctx.arch line.cmpobj.data = some name →
          obj.type = .identifier) := by
  have unchanged : SameOperand lib defaultArch line.cmpobj line.cmpobj := by
    rw [operand]
    cases src with
    | x => exact (same_operand_x ..).mpr rfl
    | k value => exact (same_operand_k ..).mpr .number
  unfold Render.resolveOperand at resolved
  rw [if_neg (by simp [conditional])] at resolved
  -- the arch is asked first, and only then the number
  by_cases arch : ctx.aStat = .arch
  · rw [if_pos arch, Option.some.injEq, Prod.mk.injEq] at resolved
    refine ⟨_, resolved.1.symm, Or.inl ?_, by simp [arch]⟩
    rw [operand]
    cases src with
    | x => exact (same_operand_x ..).mpr resolve_arch_x
    | k value => exact (same_operand_k ..).mpr (resolve_arch_shown lib defaultArch value)
  · rw [if_neg arch] at resolved
    by_cases sysnr : ctx.aStat = .sysnr
    · rw [if_pos sysnr, Option.map_eq_some_iff] at resolved
      obtain ⟨⟨obj, rest⟩, named, same⟩ := resolved
      refine ⟨obj, (congrArg Prod.fst same).symm, ?_⟩
      rcases resolve_sysnr_cases lib knows defaultArch ctx.arch pile rest line.cmpobj obj named with
        ⟨rfl, nameless⟩ | ⟨name, internal, real, found, known, rfl⟩
      · exact ⟨Or.inl unchanged, fun _ _ real name found => absurd found (nameless name real)⟩
      · refine ⟨?_, fun _ _ _ _ _ => rfl⟩
        -- an X operand is renamed as well, which the second disjunct reports
        cases src with
        | x => exact Or.inr ⟨rfl, rfl, sysnr, real, name, found⟩
        | k value =>
            left
            rw [operand] at found ⊢
            refine (same_operand_k ..).mpr ?_
            have data : (Src.k value).obj.data = value := rfl
            rw [data] at found ⊢
            by_cases home : ctx.arch = defaultArch
            · simpa [home] using ShownAs.syscall name (home ▸ found)
            · simpa [home] using ShownAs.foreign ctx.arch internal name known found
    · rw [if_neg sysnr, Option.some.injEq, Prod.mk.injEq] at resolved
      exact ⟨line.cmpobj, resolved.1.symm, Or.inl unchanged, by simp [sysnr]⟩

theorem plain_rendered (lib : Libseccomp) (defaultArch : Word) (statement shown : Statement)
    (state next : RenderState) (plain : ∀ line, ¬ statement.Conditional line)
    (rendered : renderStatement lib defaultArch statement state = some (shown, next)) :
    shown = statement := by
  unfold renderStatement at rendered
  cases shape : statement.line with
  | assign line =>
      simp only [shape, Option.map_eq_some_iff, Prod.mk.injEq] at rendered
      obtain ⟨_, _, rfl, _⟩ := rendered
      rfl
  | jump line =>
      have always : line.ifCondition = false := by
        by_contra conditional
        exact plain line ⟨shape, by simpa using conditional⟩
      simp only [shape, Render.resolveOperand, always, Bool.not_false, ↓reduceIte, Option.map_some,
        Option.some.injEq, Prod.mk.injEq] at rendered
      rw [← rendered.1, ← shape]
  | return_ line =>
      simp only [shape, Option.some.injEq, Prod.mk.injEq] at rendered
      exact rendered.1.symm
  | empty | eof | error line => simp [shape] at rendered

/-- Every conditional jump keeps its operand, and nothing else changes, exactly when no
jump on `$X` is handled where a system call number 0 would be named. -/
theorem render_keeps_meaning (lib : Libseccomp) (knows : lib.KnowsArchs) (defaultArch : Word)
    (pile : Nat) (prog : List Filter) (accepted : Accepted16 prog) (statements : List Statement)
    (decoded : decodeFilters prog false = .ok (some (Statement.zero :: statements), false))
    (after : List Statement) (rendered : render lib defaultArch pile statements = some after) :
    MeaningKept lib defaultArch statements after ↔
      ¬ XOperandNamed lib defaultArch pile statements := by
  have decodes := accepted_decodes accepted statements decoded
  obtain ⟨⟨shown, last⟩, whole, rfl⟩ := Option.map_eq_some_iff.mp rendered
  obtain ⟨length, each⟩ := render_from_each lib defaultArch statements _ last shown whole
  -- what happens to one conditional jump
  have jump (pc : Nat) (statement : Statement) (line : JumpLine)
      (found : statements[pc]? = some statement) (conditional : statement.Conditional line) :
      ∃ (ctx : StatCtx) (src : Src) (obj : Obj),
        HeldContext lib defaultArch pile statements pc ctx ∧ line.cmpobj = src.obj ∧
        shown[pc]? = some { statement with line := .jump { line with cmpobj := obj } } ∧
        (SameOperand lib defaultArch line.cmpobj obj ∨
          (src = .x ∧ obj.type = .identifier ∧ ctx.aStat = .sysnr ∧ ctx.arch ≠ archNone ∧
            ∃ name, lib.resolveNumArch ctx.arch line.cmpobj.data = some name)) ∧
        (src = .x → ctx.aStat = .sysnr → ctx.arch ≠ archNone →
          ∀ name, lib.resolveNumArch ctx.arch line.cmpobj.data = some name →
            obj.type = .identifier) := by
    have inside : pc < prog.length :=
      decodes.length ▸ (List.getElem?_eq_some_iff.mp found).1
    obtain ⟨op, src, jt, jf, here, rfl⟩ :=
      conditional_insn accepted statements decodes pc inside statement found line conditional
    have number : statement.codeNr = pc + 1 := by
      have decodedHere := decodes.each pc _ here
      rw [found, Option.some.injEq] at decodedHere
      rw [decodedHere]
      rfl
    obtain ⟨state, next, one, reached, step, there⟩ := each pc statement found
    unfold renderStatement at step
    simp only [conditional.1, track_jump_own, Option.map_eq_some_iff, Prod.mk.injEq] at step
    obtain ⟨⟨named, left⟩, resolved, rfl, _⟩ := step
    rw [number] at resolved
    obtain ⟨obj, rfl, same, exact_⟩ := operand_cases lib knows defaultArch _ state.pile left _ named
      src rfl rfl resolved
    exact ⟨_, src, obj, ⟨state, reached, rfl⟩, rfl, there, same, exact_⟩
  constructor
  · rintro ⟨_, kept⟩ ⟨pc, statement, line, ctx, name, found, conditional, isX, held, sysnr, real,
      resolved⟩
    obtain ⟨there, src, obj, heldThere, operand, shownHere, _, named⟩ :=
      jump pc statement line found conditional
    have inside : pc < prog.length := decodes.length ▸ (List.getElem?_eq_some_iff.mp found).1
    obtain rfl := (held_context lib defaultArch pile prog accepted statements decodes pc inside ctx
      held).trans (held_context lib defaultArch pile prog accepted statements decodes pc inside there
        heldThere).symm
    have fromX : src = .x := by
      cases src with
      | x => rfl
      | k value => rw [operand] at isX; cases isX
    have changed := named fromX sysnr real name resolved
    obtain ⟨rendering, at_, verdict⟩ := kept pc statement found
    rw [shownHere, Option.some.injEq] at at_
    subst at_
    rcases verdict with ⟨plain, _⟩ | ⟨other, kind, conditional', same, shape⟩
    · exact plain line conditional
    · obtain rfl : line = other := by
        have both := conditional.1.symm.trans conditional'.1
        cases both
        rfl
      simp only [SameOperand, isX, ↓reduceIte] at same
      have objs := congrArg Statement.line shape
      simp only [Line.jump.injEq, JumpLine.mk.injEq, and_true, true_and] at objs
      rw [objs, same, isX] at changed
      cases changed
  · intro unnamed
    refine ⟨length, fun pc statement found => ?_⟩
    by_cases conditional : ∃ line, statement.Conditional line
    · obtain ⟨line, conditional⟩ := conditional
      obtain ⟨ctx, src, obj, held, operand, shownHere, same | ⟨fromX, _, sysnr, real, name, resolved⟩, _⟩ :=
        jump pc statement line found conditional
      · exact ⟨_, shownHere, Or.inr ⟨line, obj, conditional, same, rfl⟩⟩
      · refine absurd ⟨pc, statement, line, ctx, name, found, conditional, ?_, held, sysnr, real,
          resolved⟩ unnamed
        rw [operand, fromX]
        rfl
    · have plain : ∀ line, ¬ statement.Conditional line := fun line cond => conditional ⟨line, cond⟩
      obtain ⟨state, next, one, _, step, there⟩ := each pc statement found
      obtain rfl := plain_rendered lib defaultArch statement one state next plain step
      exact ⟨one, there, Or.inl ⟨plain, rfl⟩⟩

/-- A libseccomp that names system call 0 of x86_64 only. -/
def readOnly : Libseccomp :=
  { resolveNumArch := fun arch number =>
      if arch = 0xC000003E ∧ number = 0 then some "read".toList else none
    resolveNameArch := fun arch name =>
      if arch = 0xC000003E ∧ name = "read".toList then 0 else 0xFFFFFFFF }

theorem read_only_knows : readOnly.KnowsArchs := by
  intro arch number name _ resolved
  simp only [readOnly] at resolved
  split at resolved
  · next first => exact ⟨.archX86_64, by rw [first.1]; decide⟩
  · cases resolved

def compareX : List Filter :=
  [⟨0x20, 0, 0, 0⟩, ⟨0x1d, 0, 1, 0⟩, ⟨0x06, 0, 0, 0x7fff0000⟩, ⟨0x06, 0, 0, 0⟩]

def compareXShown : List Statement :=
  [(Insn.ldAbs 0).statement 1, (Insn.jmp .jeq .x 0 1).statement 2,
    (Insn.retK 0x7fff0000).statement 3, (Insn.retK 0).statement 4]

/-- The comparison with `$X` is shown as one with `read`. -/
theorem compare_x_shown_as_read :
    ¬ ∀ (lib : Libseccomp), lib.KnowsArchs → ∀ (defaultArch : Word) (pile : Nat)
      (prog : List Filter), Accepted16 prog → ∀ (statements : List Statement),
      decodeFilters prog false = .ok (some (Statement.zero :: statements), false) →
      ∀ after, render lib defaultArch pile statements = some after →
      MeaningKept lib defaultArch statements after := by
  intro claim
  have accepted : Accepted16 compareX := ⟨by decide, ⟨by decide, by decide⟩, by decide⟩
  have kept := (claim readOnly read_only_knows 0xC000003E 0x1000 compareX accepted compareXShown rfl
    _ rfl).2
  obtain ⟨shown, there, verdict⟩ := kept 1 ((Insn.jmp .jeq .x 0 1).statement 2) rfl
  cases there
  rcases verdict with ⟨plain, _⟩ | ⟨line, obj, ⟨jumps, _⟩, same, shape⟩
  · exact plain _ ⟨rfl, rfl⟩
  · cases jumps
    cases shape
    have types : TokenType.identifier = .X :=
      congrArg Obj.type ((same_operand_x readOnly 0xC000003E _).mp same)
    cases types

theorem render_keeps_meaning_return_five :
    MeaningKept twoNames 0xC000003E returnFiveShown
      [(Insn.ldAbs 0).statement 1,
        { (Insn.jmp .jeq (.k 5) 0 1).statement 2 with
          line := .jump { jmpShown .jeq (.k 5) 0 1 with
            cmpobj := { type := .identifier, data := 5, literal := some "fstat".toList } } },
        Insn.retA.statement 3, (Insn.retK 0).statement 4] := by
  refine (render_keeps_meaning twoNames two_names_knows 0xC000003E 0x1000 returnFive
    return_five_accepted returnFiveShown rfl _ rfl).mpr ?_
  rintro ⟨pc, statement, line, _, _, found, ⟨jumps, _⟩, isX, _⟩
  match pc with
  | 0 | 2 | 3 => cases found; cases jumps
  | 1 => cases found; cases jumps; cases isX
  | pc + 4 => simp [returnFiveShown] at found

end Ceccomp
