import Ceccomp.Text.Resolving

/-!
A run of `resolver` that reports nothing, statement by statement: what each of them
stands for passes the kernel's check, whose masks the resolver follows one index
behind.
-/

namespace Ceccomp

/-- A statement whose labels were resolved, and the instruction it stands for. -/
structure Resolves (table : LabelTable) (bpfLen : Nat) (statement resolved : Statement)
    (insn : Insn) : Prop where
  stands : resolved.line.Stands insn
  same : resolved = { statement with line := resolved.line }
  jump : ∀ line, resolved.line = .jump line → line.jt.Named ∧
    Leads table bpfLen statement.codeNr line.jt ∧
    (line.ifCondition = true → Leads table bpfLen statement.codeNr line.jf ∧
      (line.jf.key = none ∨ line.jf.Named))

/-- The masks of the resolver are those of the check, one index further. -/
def MasksMatch (state : ResolveState) (masks : Masks) : Prop :=
  state.memValid = masks.memValid ∧ ∀ idx, state.masks (idx + 1) = masks.masks idx

theorem match_entered (state : ResolveState) (masks : Masks) (pc : Nat)
    (matched : MasksMatch state masks) :
    MasksMatch { state with memValid := state.memValid &&& state.masks (pc + 1) }
      (masks.entered merged pc) :=
  ⟨by simp only [Masks.entered, merged, matched.1, matched.2], matched.2⟩

theorem merge_mask_match (state : ResolveState) (masks : Nat → BitVec 16) (target : Nat)
    (matched : ∀ idx, state.masks (idx + 1) = masks idx) (idx : Nat) :
    (state.mergeMask (target + 1)).masks (idx + 1) =
      Forward.absorbOne (· &&& ·) masks (target, state.memValid) idx := by
  by_cases same : idx = target
  · subst same
    simp [ResolveState.mergeMask, Forward.absorbOne, matched]
  · simp [ResolveState.mergeMask, Forward.absorbOne, same, matched]

theorem merge_masks_match (targets : List Nat) (state : ResolveState) (masks : Nat → BitVec 16)
    (matched : ∀ idx, state.masks (idx + 1) = masks idx) (idx : Nat) :
    ((targets.map (· + 1)).foldl ResolveState.mergeMask state).masks (idx + 1) =
      Forward.absorb (· &&& ·) masks (targets.map fun target => (target, state.memValid)) idx := by
  induction targets generalizing state masks with
  | nil => exact matched idx
  | cons target rest ih =>
      simp only [List.map_cons, List.foldl_cons, Forward.absorb_cons]
      exact ih (state.mergeMask (target + 1)) _ (merge_mask_match state masks target matched)

theorem absorb_swap (masks : Nat → BitVec 16) (mask : BitVec 16) (first second : Nat) :
    Forward.absorb (· &&& ·) masks [(first, mask), (second, mask)] =
      Forward.absorb (· &&& ·) masks [(second, mask), (first, mask)] := by
  funext idx
  simp only [Forward.absorb, List.foldl_cons, List.foldl_nil, Forward.absorbOne]
  by_cases one : idx = first
  · by_cases two : idx = second
    · subst one
      rw [two]
    · subst one
      simp [two]
  · by_cases two : idx = second
    · subst two
      simp [one]
    · simp [one, two]

theorem swapped_targets (pc : Nat) (insn : Insn) (mask : BitVec 16) (masks : Nat → BitVec 16) :
    Forward.absorb (· &&& ·) masks ((insn.targets pc).reverse.map fun target => (target, mask)) =
      Forward.absorb (· &&& ·) masks ((insn.targets pc).map fun target => (target, mask)) := by
  cases insn with
  | jmp op src jt jf => exact absorb_swap masks mask _ _
  | _ => rfl

/-- What a silent step of the resolver leaves behind. -/
structure StepMatches (pc bpfLen : Nat) (state after : ResolveState) (insn : Insn) : Prop where
  admissible : insn.Admissible pc bpfLen state.memValid
  matched : ∀ masks, MasksMatch state masks → MasksMatch after (insn.flow pc masks)

theorem straight_matches (pc bpfLen : Nat) (state : ResolveState) (after : BitVec 16) (insn : Insn)
    (admits : Admits pc bpfLen state.memValid after insn) :
    StepMatches pc bpfLen state { state with memValid := after } insn where
  admissible := admits.admissible
  matched masks matched := by
    refine ⟨?_, fun idx => ?_⟩
    · simp only [Insn.flow, ← matched.1, admits.valid]
    · simp only [Insn.flow, Insn.masksAfter, admits.straight, List.map_nil, Forward.absorb_nil]
      exact matched.2 idx

theorem jump_matches (table : LabelTable) (bpfLen pc : Nat) (line resolved : JumpLine)
    (state : ResolveState) (targets : List Nat) (insn : Insn)
    (admits : JumpAdmits table bpfLen (pc + 1) line resolved targets insn) :
    StepMatches pc bpfLen state
      { targets.foldl ResolveState.mergeMask state with memValid := 0xffff } insn where
  admissible := admits.admissible state.memValid
  matched masks matched := by
    refine ⟨?_, fun idx => ?_⟩
    · simp only [Insn.flow, admits.valid]
    · simp only [Insn.flow, Insn.masksAfter, ← matched.1]
      rcases admits.merges with same | same
      · rw [same]
        exact merge_masks_match _ state masks.masks matched.2 idx
      · rw [same, ← List.map_reverse, ← swapped_targets pc insn state.memValid]
        exact merge_masks_match _ state masks.masks matched.2 idx

/-- A statement the resolver is handed: numbered, and a proper line or an error. -/
structure Handed (bpfLen pc : Nat) (statement : Statement) : Prop where
  codeNr : statement.codeNr = pc + 1
  line : (∃ error, statement.line = .error error) ∨ statement.line.Shaped

theorem report_reports (state : ResolveState) (statement : Statement) (message : Message) :
    (state.report statement message).reports ≠ [] := by
  simp [ResolveState.report]

theorem merged_reports (targets : List Nat) (state : ResolveState) :
    (targets.foldl ResolveState.mergeMask state).reports = state.reports := by
  induction targets generalizing state with
  | nil => rfl
  | cons target rest ih => exact (ih _).trans rfl

theorem resolve_statement_silent (table : LabelTable) (bpfLen pc : Nat)
    (small : bpfLen ≤ bpfMaxInsns) (inside : pc < bpfLen)
    (fits : ∀ key, findKey table key < 65536) (statement resolved : Statement)
    (state after : ResolveState) (handed : Handed bpfLen pc statement)
    (done : resolveStatement table bpfLen statement state = (resolved, after))
    (silent : after.reports = []) :
    state.reports = [] ∧ ∃ insn, Resolves table bpfLen statement resolved insn ∧
      StepMatches pc bpfLen state after insn := by
  unfold resolveStatement at done
  cases line : statement.line with
  | error e =>
      -- error_line reports whatever the parser wrote
      simp only [line] at done
      cases done
      simp at silent
  | empty | eof =>
      rcases handed.line with ⟨_, error⟩ | shaped
      · rw [line] at error; cases error
      · rw [line] at shaped; exact absurd shaped (by simp [Line.Shaped])
  | assign l =>
      have shaped : l.Shaped := by
        rcases handed.line with ⟨_, error⟩ | shaped
        · rw [line] at error; cases error
        · rw [line] at shaped; exact shaped
      simp only [line] at done
      split at done
      · cases done
        exact absurd silent (report_reports _ _ _)
      · next memValid checked =>
          cases done
          obtain ⟨insn, stands, admits⟩ :=
            assign_line_stands l shaped pc bpfLen state.memValid memValid checked
          exact ⟨silent, insn,
            { stands := by rw [line]; exact stands
              same := rfl
              jump := fun other same => by rw [line] at same; cases same },
            straight_matches pc bpfLen state memValid insn admits⟩
  | return_ l =>
      have shaped : l.Shaped := by
        rcases handed.line with ⟨_, error⟩ | shaped
        · rw [line] at error; cases error
        · rw [line] at shaped; exact shaped
      simp only [line] at done
      split at done
      · cases done
        exact absurd silent (report_reports _ _ _)
      · cases done
        obtain ⟨insn, stands, admits⟩ := return_line_stands l shaped pc bpfLen state.memValid
        exact ⟨silent, insn,
          { stands := by rw [line]; exact stands
            same := rfl
            jump := fun other same => by rw [line] at same; cases same },
          straight_matches pc bpfLen state state.memValid insn admits⟩
  | jump l =>
      have shaped : l.Shaped := by
        rcases handed.line with ⟨_, error⟩ | shaped
        · rw [line] at error; cases error
        · rw [line] at shaped; exact shaped
      simp only [line, handed.codeNr] at done
      cases ran : Resolver.jumpLine table bpfLen (pc + 1) l with
      | mk jumped outcome =>
          rw [ran] at done
          cases outcome with
          | error message =>
              cases done
              exact absurd silent (report_reports _ _ _)
          | ok targets =>
              -- conditional jumps name two labels, the others one
              cases done
              obtain ⟨insn, admits⟩ : ∃ insn,
                  JumpAdmits table bpfLen (pc + 1) l jumped targets insn := by
                by_cases conditional : l.ifCondition = true
                · exact jmp_stands small (by omega) inside shaped conditional fits jumped targets ran
                · exact ja_stands small (by omega) inside shaped.jt (by simpa using conditional)
                    jumped targets ran
              -- the merge of the masks reports nothing of its own
              have quiet : state.reports = [] := by
                rwa [merged_reports] at silent
              refine ⟨quiet, insn,
                { stands := admits.stands
                  same := by rw [handed.codeNr]
                  jump := ?_ }, jump_matches table bpfLen pc l jumped state targets insn admits⟩
              intro other same
              cases same
              refine ⟨?_, handed.codeNr ▸ admits.jt, fun conditional =>
                ⟨handed.codeNr ▸ admits.jf conditional, ?_⟩⟩
              · obtain ⟨key, named, nonempty⟩ := shaped.jt
                exact ⟨key, admits.keys.1.trans named, nonempty⟩
              · rcases shaped.jf with zero | ⟨key, named, nonempty⟩
                · exact Or.inl (admits.keys.2.trans (by rw [zero]; rfl))
                · exact Or.inr ⟨key, admits.keys.2.trans named, nonempty⟩

/-- The instructions the statements from number `pc + 1` on stand for. -/
structure ResolvesFrom (table : LabelTable) (bpfLen pc : Nat) (code resolved : List Statement)
    (state : ResolveState) (insns : List Insn) : Prop where
  length : insns.length = code.length
  kept : resolved.length = code.length
  each : ∀ (i : Nat) statement, code[i]? = some statement →
    ∃ shown insn, resolved[i]? = some shown ∧ insns[i]? = some insn ∧
      Resolves table bpfLen statement shown insn
  admissible : ∀ prog, (∀ (i : Nat) insn, insns[i]? = some insn → insnAt prog (pc + i) = some insn) →
    MasksMatch state (masksBefore merged prog pc) →
    ∀ (i : Nat) insn, insns[i]? = some insn →
      insn.Admissible (pc + i) bpfLen (masksAt merged prog (pc + i)).memValid

theorem resolve_from_silent (table : LabelTable) (bpfLen : Nat) (small : bpfLen ≤ bpfMaxInsns)
    (fits : ∀ key, findKey table key < 65536) (code : List Statement) (pc : Nat)
    (inside : pc + code.length ≤ bpfLen)
    (handed : ∀ (i : Nat) statement, code[i]? = some statement → Handed bpfLen (pc + i) statement)
    (state final : ResolveState) (resolved : List Statement)
    (done : resolveFrom table bpfLen (pc + 1) code state = (resolved, final))
    (silent : final.reports = []) :
    state.reports = [] ∧ ∃ insns, ResolvesFrom table bpfLen pc code resolved state insns := by
  induction code generalizing pc state resolved with
  | nil =>
      cases done
      exact ⟨silent, [],
        { length := rfl, kept := rfl, each := by simp, admissible := by simp }⟩
  | cons statement rest ih =>
      simp only [List.length_cons] at inside
      simp only [resolveFrom] at done
      cases one : resolveStatement table bpfLen statement
          { state with memValid := state.memValid &&& state.masks (pc + 1) } with
      | mk shown after =>
          simp only [one] at done
          cases later : resolveFrom table bpfLen (pc + 1 + 1) rest after with
          | mk others last =>
              simp only [later] at done
              cases done
              -- what is behind is silent too, so the statement itself reported nothing
              obtain ⟨quiet, insns, tail⟩ := ih (pc + 1) (by omega)
                (fun i other found => by
                  have there := handed (i + 1) other (by simpa using found)
                  rwa [show pc + (i + 1) = pc + 1 + i by omega] at there)
                after others later
              obtain ⟨still, insn, resolves, step⟩ := resolve_statement_silent table bpfLen pc small
                (by omega) fits statement shown _ after (handed 0 statement rfl) one quiet
              refine ⟨still, insn :: insns,
                { length := by simp [tail.length]
                  kept := by simp [tail.kept]
                  each := ?_
                  admissible := ?_ }⟩
              · intro i other found
                cases i with
                | zero =>
                    cases found
                    exact ⟨shown, insn, rfl, rfl, resolves⟩
                | succ i => exact tail.each i other (by simpa using found)
              · intro prog fetched matched
                -- the masks of the resolver are those of the merged check up to here
                have entered := match_entered state _ pc matched
                have here := fetched 0 insn rfl
                have next : MasksMatch after (masksBefore merged prog (pc + 1)) := by
                  simp only [masksBefore, Nat.add_zero] at here ⊢
                  rw [here]
                  exact step.matched _ entered
                intro i other found
                cases i with
                | zero =>
                    cases found
                    rw [Nat.add_zero, masksAt, ← entered.1]
                    exact step.admissible
                | succ i =>
                    have admits := tail.admissible prog
                      (fun j one found => by
                        have there := fetched (j + 1) one (by simpa using found)
                        rwa [show pc + (j + 1) = pc + 1 + j by omega] at there)
                      next i other (by simpa using found)
                    rwa [show pc + 1 + i = pc + (i + 1) by omega] at admits

end Ceccomp
