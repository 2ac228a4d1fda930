import Ceccomp.Emu.Emulator
import Ceccomp.Text.Program

/-!
The text the emulator is handed: numbered lines, every effective one standing for an
instruction, and labels that lead forward to a declaration. It stays so when results
are written into its return lines.
-/

namespace Ceccomp

section Scattered

theorem scatter_length (text code : List Statement) : (scatter text code).length = text.length := by
  induction text generalizing code with
  | nil => rfl
  | cons first rest ih =>
      unfold scatter
      split
      · simp [ih]
      · cases code with
        | nil => simp [ih]
        | cons shown later => simp [ih]

theorem scatter_at (text code : List Statement) (length : code.length = countCode text) (i : Nat)
    (statement : Statement) (found : text[i]? = some statement) :
    (statement.line = .empty ∧ (scatter text code)[i]? = some statement) ∨
      (statement.line ≠ .empty ∧ ∃ shown, code[countCode (text.take i)]? = some shown ∧
        (scatter text code)[i]? = some shown) := by
  induction text generalizing code i with
  | nil => simp at found
  | cons first rest ih =>
      rw [count_code_cons] at length
      unfold scatter
      by_cases empty : first.line = .empty
      · rw [if_pos empty, Nat.add_zero] at length
        rw [if_pos empty]
        cases i with
        | zero =>
            cases found
            exact Or.inl ⟨empty, rfl⟩
        | succ i =>
            rw [List.take_succ_cons, count_code_cons, if_pos empty, Nat.add_zero]
            exact ih code length i found
      · rw [if_neg empty] at length
        rw [if_neg empty]
        obtain ⟨shown, later, rfl⟩ : ∃ shown later, code = shown :: later :=
          List.exists_cons_of_length_eq_add_one length
        cases i with
        | zero =>
            cases found
            exact Or.inr ⟨empty, shown, rfl, rfl⟩
        | succ i =>
            rw [List.take_succ_cons, count_code_cons, if_neg empty]
            exact ih later (by simpa using length) i found

theorem scatter_ptrs (text code : List Statement) (length : code.length = countCode text)
    (proper : ∀ statement ∈ code, statement.line ≠ .empty) :
    codePtrs (scatter text code) = code := by
  induction text generalizing code with
  | nil =>
      have none_ : code = [] := List.eq_nil_of_length_eq_zero length
      rw [none_]
      rfl
  | cons first rest ih =>
      rw [count_code_cons] at length
      unfold scatter
      by_cases empty : first.line = .empty
      · rw [if_pos empty, Nat.add_zero] at length
        rw [if_pos empty]
        have later := ih code length proper
        simpa [codePtrs, empty] using later
      · rw [if_neg empty] at length
        rw [if_neg empty]
        obtain ⟨shown, later, rfl⟩ : ∃ shown later, code = shown :: later :=
          List.exists_cons_of_length_eq_add_one length
        rw [List.forall_mem_cons] at proper
        have rest_ := ih later (by simpa using length) proper.2
        simpa [codePtrs, proper.1] using rest_

theorem scatter_take (text code : List Statement) (length : code.length = countCode text)
    (proper : ∀ statement ∈ code, statement.line ≠ .empty) (i : Nat) :
    countCode ((scatter text code).take i) = countCode (text.take i) := by
  induction text generalizing code i with
  | nil => rfl
  | cons first rest ih =>
      rw [count_code_cons] at length
      cases i with
      | zero => rfl
      | succ i =>
          unfold scatter
          by_cases empty : first.line = .empty
          · rw [if_pos empty, Nat.add_zero] at length
            rw [if_pos empty, List.take_succ_cons, List.take_succ_cons, count_code_cons,
              count_code_cons, ih code length proper i]
          · rw [if_neg empty] at length
            rw [if_neg empty]
            obtain ⟨shown, later, rfl⟩ : ∃ shown later, code = shown :: later :=
              List.exists_cons_of_length_eq_add_one length
            rw [List.forall_mem_cons] at proper
            dsimp only
            rw [List.take_succ_cons, List.take_succ_cons, count_code_cons, count_code_cons,
              if_neg empty, if_neg proper.1, ih later (by simpa using length) proper.2 i]

end Scattered

section Near

/-- A conditional jump that was resolved without an error goes at most 255 statements. -/
theorem jump_line_near (table : LabelTable) (bpfLen codeNr : Nat) (line resolved : JumpLine)
    (targets : List Nat)
    (done : Resolver.jumpLine table bpfLen codeNr line = (resolved, .ok targets))
    (conditional : resolved.ifCondition = true) :
    resolved.jt.codeNr ≤ 255 ∧ resolved.jf.codeNr ≤ 255 := by
  unfold Resolver.jumpLine at done
  dsimp only at done
  split at done
  · next plain =>
      exfalso
      unfold Resolver.jaLine at done
      split at done
      · cases done
      · split at done
        · cases done
        · split at done
          · cases done
          · cases done
            exact absurd conditional (by simpa using plain)
  · unfold Resolver.jtLine at done
    split at done
    · cases done
    · split at done
      · cases done
      · next jtNear =>
          split at done
          · cases done
          · unfold Resolver.jfLine at done
            split at done
            · cases done
            · split at done
              · cases done
              · next jfNear =>
                  split at done
                  · cases done
                  · cases done
                    exact ⟨(distance_error_none _ _ _ jtNear).2, (distance_error_none _ _ _ jfNear).2⟩

theorem assign_line_near (memValid after : BitVec 16) (line : AssignLine)
    (arg : line.rightVar.type = .attrLowarg ∨ line.rightVar.type = .attrHigharg)
    (left : line.leftVar.type ∈ [.A, .X, .mem])
    (silent : Resolver.assignLine memValid line = (none, after)) :
    line.rightVar.data.toNat ≤ 5 := by
  have loaded (none_ : Resolver.loadError memValid line.rightVar = none) :
      line.rightVar.data.toNat ≤ 5 := load_error_arg memValid _ arg none_
  have plain : line.rightVar.type ≠ .A ∧ line.rightVar.type ≠ .X ∧ line.rightVar.type ≠ .number := by
    rcases arg with type | type <;> simp [type]
  simp only [List.mem_cons, List.not_mem_nil, or_false] at left
  unfold Resolver.assignLine at silent
  rcases left with left | left | left
  · simp only [left, Prod.mk.injEq] at silent
    have quiet := silent.1
    unfold Resolver.assignA at quiet
    dsimp only at quiet
    split at quiet
    · rw [if_pos plain.1] at quiet
      cases quiet
    · split at quiet
      · rw [if_pos ⟨plain.2.1, plain.2.2⟩] at quiet
        cases quiet
      · rw [if_neg plain.1] at quiet
        exact loaded quiet
  · simp only [left, Prod.mk.injEq] at silent
    have quiet := silent.1
    unfold Resolver.assignX at quiet
    dsimp only at quiet
    split at quiet
    · cases quiet
    · have range : line.rightVar.type.fromTo .attrSyscall .attrHigharg = true := by
        rcases arg with type | type <;> rw [type] <;> rfl
      rw [if_pos range] at quiet
      cases quiet
  · simp only [left] at silent
    split at silent
    · cases silent
    · next quiet =>
        unfold Resolver.assignMem at quiet
        split at quiet
        · cases quiet
        · split at quiet
          · cases quiet
          · rw [if_pos ⟨plain.1, plain.2.1⟩] at quiet
            cases quiet

theorem return_line_near (line : ReturnLine) (silent : Resolver.returnLine line = none)
    (carries : line.retObj.type ∈ [.trace, .trap, .errno]) : line.retObj.data.toNat ≤ 0xffff := by
  simp only [List.mem_cons, List.not_mem_nil, or_false] at carries
  unfold Resolver.returnLine at silent
  dsimp only at silent
  have plain : ¬(line.retObj.type = .A ∨ line.retObj.type = .number) := by
    rcases carries with type | type | type <;> simp [type]
  rw [if_neg plain] at silent
  split at silent
  · cases silent
  · next fits =>
      by_contra beyond
      exact fits ⟨carries, by omega⟩

/-- The distances of a conditional jump fit a byte, arguments are among the six and
returned data fits beside its action. -/
structure Statement.Near (statement : Statement) : Prop where
  jump : ∀ line, statement.line = .jump line → line.ifCondition = true →
    line.jt.codeNr ≤ 255 ∧ line.jf.codeNr ≤ 255
  args : ∀ line, statement.line = .assign line →
    line.rightVar.type = .attrLowarg ∨ line.rightVar.type = .attrHigharg →
    line.leftVar.type ∈ [.A, .X, .mem] → line.rightVar.data.toNat ≤ 5
  ret : ∀ line, statement.line = .return_ line → line.Shaped ∧
    (line.retObj.type ∈ [.trace, .trap, .errno] → line.retObj.data.toNat ≤ 0xffff)

theorem resolve_statement_near (table : LabelTable) (bpfLen : Nat) (statement resolved : Statement)
    (shaped : statement.line.Shaped) (state after : ResolveState)
    (done : resolveStatement table bpfLen statement state = (resolved, after))
    (silent : after.reports = []) : resolved.Near := by
  unfold resolveStatement at done
  cases shape : statement.line with
  | error e | empty | eof =>
      rw [shape] at shaped
      exact shaped.elim
  | return_ l =>
      rw [shape] at shaped
      simp only [shape] at done
      split at done
      · cases done
        exact absurd silent (report_reports _ _ _)
      · next quiet =>
          cases done
          exact
            { jump := by simp [shape]
              args := by simp [shape]
              ret := fun line returns => by
                rw [shape] at returns
                cases returns
                exact ⟨shaped, return_line_near l quiet⟩ }
  | assign l =>
      simp only [shape] at done
      split at done
      · cases done
        exact absurd silent (report_reports _ _ _)
      · next memValid quiet =>
          cases done
          exact
            { jump := by simp [shape]
              args := fun line assigns arg left => by
                rw [shape] at assigns
                cases assigns
                exact assign_line_near state.memValid memValid l arg left quiet
              ret := by simp [shape] }
  | jump l =>
      simp only [shape] at done
      split at done
      · cases done
        exact absurd silent (report_reports _ _ _)
      · next targets merged =>
          cases done
          exact
            { jump := fun line jumps conditional => by
                cases jumps
                exact jump_line_near table bpfLen statement.codeNr l _ targets
                  (Prod.ext rfl merged) conditional
              args := fun line assigns => by cases assigns
              ret := fun line returns => by cases returns }

theorem resolve_from_near (table : LabelTable) (bpfLen nr : Nat) (code resolved : List Statement)
    (shaped : ∀ statement ∈ code, statement.line.Shaped) (state final : ResolveState)
    (done : resolveFrom table bpfLen nr code state = (resolved, final))
    (silent : final.reports = []) : ∀ statement ∈ resolved, statement.Near := by
  induction code generalizing nr state resolved with
  | nil =>
      cases done
      simp
  | cons statement rest ih =>
      simp only [resolveFrom] at done
      cases one : resolveStatement table bpfLen statement
          { state with memValid := state.memValid &&& state.masks nr } with
      | mk shown after =>
          simp only [one] at done
          cases later : resolveFrom table bpfLen (nr + 1) rest after with
          | mk others last =>
              simp only [later] at done
              cases done
              have quiet := (resolve_from_errors _ _ _ _ _ _ _ later silent).1
              rw [List.forall_mem_cons] at shaped ⊢
              exact ⟨resolve_statement_near table bpfLen statement shown shaped.1 _ after one quiet,
                ih (nr + 1) others shaped.2 after later⟩

end Near

/-- The labels a jump may take. -/
def JumpLine.Takes (line : JumpLine) (label : Label) : Prop :=
  label = line.jt ∨ (line.ifCondition = true ∧ label = line.jf)

/-- A label that leads forward, to the line that declares its key. -/
structure LabelLeads (text : List Statement) (statement : Statement) (label : Label) : Prop where
  inside : statement.codeNr + label.codeNr < countCode text
  declared : ∀ key, label.key = some key → key ≠ [] ∧
    ∃ decl ∈ text, decl.labelDecl = some key ∧ decl.codeNr = statement.codeNr + label.codeNr + 1
  default : label.key = none → label.codeNr = 0

structure TextReady (text : List Statement) (insns : List Insn) : Prop where
  textNr : ∀ (i : Nat) statement, text[i]? = some statement → statement.textNr = i + 1
  codeNr : ∀ (i : Nat) statement, text[i]? = some statement →
    statement.codeNr = countCode (text.take i) + 1
  length : insns.length = countCode text
  nonempty : insns ≠ []
  few : insns.length ≤ bpfMaxInsns
  stands : ∀ (j : Nat) statement, (codePtrs text)[j]? = some statement →
    ∃ insn, insns[j]? = some insn ∧ statement.line.Stands insn
  leads : ∀ statement ∈ text, ∀ line, statement.line = .jump line → ∀ label, line.Takes label →
    LabelLeads text statement label
  near : ∀ statement ∈ text, statement.Near
  clean : MergedClean (insns.map Insn.filter)

theorem stands_not_empty (line : Line) (insn : Insn) (stands : line.Stands insn) : line ≠ .empty := by
  rintro rfl
  exact stands

section Programs

variable {lib : Libseccomp} {localArch : Word} (program : TextProgram lib localArch)
variable (insns : List Insn) (assembles : Assembles program insns)

include assembles

theorem program_resolves (j : Nat) (statement : Statement) (found : program.code[j]? = some statement) :
    ∃ before insn, (codePtrs program.parsed.text)[j]? = some before ∧ insns[j]? = some insn ∧
      Resolves program.parsed.table insns.length before statement insn := by
  have inside : j < (codePtrs program.parsed.text).length :=
    assembles.kept ▸ (List.getElem?_eq_some_iff.mp found).1
  obtain ⟨shown, insn, here, there, resolves⟩ :=
    assembles.each j _ (List.getElem?_eq_getElem inside)
  rw [found] at here
  cases here
  exact ⟨_, insn, List.getElem?_eq_getElem inside, there, resolves⟩

theorem program_proper : ∀ statement ∈ program.code, statement.line ≠ .empty := by
  intro statement member
  obtain ⟨j, found⟩ := List.mem_iff_getElem?.mp member
  obtain ⟨_, insn, _, _, resolves⟩ := program_resolves program insns assembles j statement found
  exact stands_not_empty _ insn resolves.stands

theorem program_ptrs : codePtrs program.text = program.code :=
  scatter_ptrs _ _ assembles.kept (program_proper program insns assembles)

theorem program_counted : countCode program.text = insns.length := by
  rw [countCode, program_ptrs program insns assembles, assembles.kept, assembles.length]

theorem program_origin (i : Nat) (statement : Statement) (found : program.text[i]? = some statement) :
    ∃ before, program.parsed.text[i]? = some before ∧ statement.textNr = before.textNr ∧
      statement.codeNr = before.codeNr ∧ statement.labelDecl = before.labelDecl ∧
      statement.lineStart = before.lineStart := by
  have inside : i < program.parsed.text.length := by
    rw [← scatter_length program.parsed.text program.code]
    exact (List.getElem?_eq_some_iff.mp found).1
  refine ⟨_, List.getElem?_eq_getElem inside, ?_⟩
  rcases scatter_at _ _ assembles.kept i _ (List.getElem?_eq_getElem inside) with
    ⟨_, same⟩ | ⟨counts, shown, here, same⟩
  · have := same.symm.trans found
    cases this
    exact ⟨rfl, rfl, rfl, rfl⟩
  · have := same.symm.trans found
    cases this
    obtain ⟨before, insn, ptr, _, resolves⟩ := program_resolves program insns assembles _ _ here
    have own := code_at_count _ i _ (List.getElem?_eq_getElem inside) counts
    rw [ptr] at own
    cases own
    rw [resolves.same]
    exact ⟨rfl, rfl, rfl, rfl⟩

theorem program_text_nr (i : Nat) (statement : Statement)
    (found : program.text[i]? = some statement) : statement.textNr = i + 1 := by
  obtain ⟨before, here, same, _, _⟩ := program_origin program insns assembles i statement found
  have number := (program_text program).textNr i before here
  have inside := (List.getElem?_eq_some_iff.mp here).1
  have short := program_short program
  omega

theorem program_code_nr (i : Nat) (statement : Statement)
    (found : program.text[i]? = some statement) :
    statement.codeNr = countCode (program.text.take i) + 1 := by
  obtain ⟨before, here, _, same, _⟩ := program_origin program insns assembles i statement found
  have number := (program_text program).codeNr i before here
  have small := count_code_short program i
  rw [TextProgram.text, scatter_take _ _ assembles.kept (program_proper program insns assembles)]
  omega

/-- A key whose number lies inside the program was declared by a line of that number. -/
theorem program_declares (key : Text) (nr : Nat) (found : findKey program.parsed.table key = nr)
    (inside : nr ≤ insns.length) :
    ∃ decl ∈ program.text, decl.labelDecl = some key ∧ decl.codeNr = nr := by
  have few := (program_few program).2
  have length := assembles.length
  simp only [bpfMaxInsns] at few
  have all : countCode program.parsed.text = insns.length := length.symm
  rcases find_key_member _ _ _ found with entry | absent
  · rcases (program_text program).labels key _ entry with ⟨decl, there, declares, same⟩ | behind
    · obtain ⟨k, declared⟩ := List.mem_iff_getElem?.mp there
      have within : k < program.text.length := by
        rw [TextProgram.text, scatter_length]
        exact (List.getElem?_eq_some_iff.mp declared).1
      have shownAt := List.getElem?_eq_getElem within
      obtain ⟨other, otherAt, _, codeNr, labelDecl, _⟩ :=
        program_origin program insns assembles k _ shownAt
      rw [declared] at otherAt
      cases otherAt
      exact ⟨_, List.mem_of_getElem? shownAt, by rw [labelDecl, declares], by rw [codeNr, same]⟩
    · omega
  · omega

theorem program_leads (statement : Statement) (member : statement ∈ program.text) (line : JumpLine)
    (jumps : statement.line = .jump line) (label : Label) (takes : line.Takes label) :
    LabelLeads program.text statement label := by
  obtain ⟨i, found⟩ := List.mem_iff_getElem?.mp member
  have counts : statement.line ≠ .empty := by
    rw [jumps]
    exact nofun
  have ptr := code_at_count _ i statement found counts
  rw [program_ptrs program insns assembles] at ptr
  obtain ⟨before, insn, _, _, resolves⟩ := program_resolves program insns assembles _ _ ptr
  have number : before.codeNr = statement.codeNr := by rw [resolves.same]
  obtain ⟨jtNamed, jtLeads, jf⟩ := resolves.jump line jumps
  have leads : Leads program.parsed.table insns.length before.codeNr label ∧
      (label.key = none ∨ label.Named) := by
    rcases takes with rfl | ⟨conditional, rfl⟩
    · exact ⟨jtLeads, Or.inr jtNamed⟩
    · exact jf conditional
  rw [number] at leads
  have bound := leads.1.inside
  refine
    { inside := by
        rw [program_counted program insns assembles]
        omega
      declared := fun key named => ⟨?_, ?_⟩
      default := leads.1.default }
  · rcases leads.2 with none_ | ⟨other, same, filled⟩
    · rw [named] at none_
      cases none_
    · rw [named] at same
      cases same
      exact filled
  · exact program_declares program insns assembles key _ (leads.1.found key named) (by omega)

theorem program_near (statement : Statement) (member : statement ∈ program.text) : statement.Near := by
  obtain ⟨i, found⟩ := List.mem_iff_getElem?.mp member
  by_cases empty : statement.line = .empty
  · exact { jump := by simp [empty], args := by simp [empty], ret := by simp [empty] }
  · have ptr := code_at_count _ i statement found empty
    rw [program_ptrs program insns assembles] at ptr
    obtain ⟨_, resolved, silent, _⟩ := resolver_run _ _ _ program.resolves
    rw [← resolved] at ptr
    have shaped (other : Statement) (there : other ∈ codePtrs program.parsed.text) :
        other.line.Shaped := by
      obtain ⟨j, at_⟩ := List.mem_iff_getElem?.mp there
      exact (program_handed program j other at_).2.1
    exact resolve_from_near _ _ _ _ _ shaped _ _ rfl silent statement (List.mem_of_getElem? ptr)

theorem program_ready : TextReady program.text insns :=
  { textNr := program_text_nr program insns assembles
    codeNr := program_code_nr program insns assembles
    length := (program_counted program insns assembles).symm
    nonempty := by
      intro none_
      have some_ := (program_few program).1
      rw [← assembles.length, none_, List.length_nil] at some_
      omega
    few := by
      rw [assembles.length]
      exact (program_few program).2
    stands := fun j statement found => by
      rw [program_ptrs program insns assembles] at found
      obtain ⟨_, insn, _, there, resolves⟩ := program_resolves program insns assembles j statement found
      exact ⟨insn, there, resolves.stands⟩
    leads := program_leads program insns assembles
    near := program_near program insns assembles
    clean := assembles.clean }

end Programs

end Ceccomp
