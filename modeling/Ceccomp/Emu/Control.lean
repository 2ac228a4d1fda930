import Ceccomp.Emu.Meaning

/-!
The control flow of the emulator. It walks lines and finds labels by their text; the
assembler counts effective statements. Both visit the same statements.
-/

namespace Ceccomp

open Machine (Next)
open Emu (EmuState EmuEnd emulatorStep)

section Counting

variable (text : List Statement)

theorem count_take_mono (i j : Nat) (le : i ≤ j) :
    countCode (text.take i) ≤ countCode (text.take j) := by
  have same : text.take i = (text.take j).take i := by rw [List.take_take, Nat.min_eq_left le]
  rw [same]
  exact count_code_le (text.take j) i

theorem count_take_succ (i : Nat) (statement : Statement) (found : text[i]? = some statement) :
    countCode (text.take (i + 1)) =
      countCode (text.take i) + (if statement.line = .empty then 0 else 1) := by
  rw [List.take_add_one, found]
  by_cases empty : statement.line = .empty <;> simp [countCode, codePtrs, empty]

/-- Between two lines with equally many statements before them stand only empty lines. -/
theorem between_empty (i j : Nat) (same : countCode (text.take i) = countCode (text.take j))
    (k : Nat) (from_ : i ≤ k) (upTo : k < j) (statement : Statement)
    (found : text[k]? = some statement) : statement.line = .empty := by
  by_contra counts
  have step := count_take_succ text k statement found
  rw [if_neg counts] at step
  have before := count_take_mono text i k from_
  have after := count_take_mono text (k + 1) j upTo
  omega

end Counting

/-- The walk back stops behind the first line from above that declares the key, and
so no lower than one that is known to. -/
theorem find_decl_stops (text : List Statement) (key : Text) (cur d : Nat) (decl : Statement)
    (here : text[d]? = some decl) (declares : decl.labelDecl = some key) (behind : cur ≤ d)
    (top : Nat) (above : d < top) (inside : top ≤ text.length) :
    ∃ e, Emu.findDecl text key cur top = some (e + 1) ∧ d ≤ e ∧ e < top := by
  induction top with
  | zero => omega
  | succ top ih =>
      unfold Emu.findDecl
      rw [if_pos (Nat.lt_succ_of_le (Nat.le_trans behind (Nat.le_of_lt_succ above))),
        List.getElem?_eq_getElem inside]
      dsimp only
      by_cases found : text[top].labelDecl = some key
      · rw [if_pos found]
        exact ⟨top, rfl, Nat.le_of_lt_succ above, Nat.lt_succ_self top⟩
      · rw [if_neg found]
        have lower : d ≠ top := by
          rintro rfl
          rw [List.getElem?_eq_getElem inside] at here
          cases here
          exact found declares
        obtain ⟨e, same, low, high⟩ := ih (by omega) (by omega)
        exact ⟨e, same, low, by omega⟩

/-- Where `code_nr_to_text_nr` sends a jump: behind it, not behind the statement its
offset names, and over empty lines only. -/
structure LandsAt (text : List Statement) (statement : Statement) (label : Label) (nr : Nat) :
    Prop where
  found : Emu.codeNrToTextNr text statement label = some nr
  ahead : statement.textNr < nr
  target : ∃ target, (codePtrs text)[statement.codeNr + label.codeNr]? = some target ∧
    nr ≤ target.textNr ∧ ∀ k skipped, nr ≤ k → k < target.textNr → text[k - 1]? = some skipped →
      skipped.line = .empty
  count : countCode (text.take (nr - 1)) = statement.codeNr + label.codeNr

theorem label_lands (text : List Statement) (insns : List Insn) (ready : TextReady text insns)
    (statement : Statement) (member : statement ∈ text) (counts : statement.line ≠ .empty)
    (label : Label) (leads : LabelLeads text statement label) :
    ∃ nr, LandsAt text statement label nr := by
  obtain ⟨i, here⟩ := List.mem_iff_getElem?.mp member
  have textNr := ready.textNr i statement here
  have codeNr := ready.codeNr i statement here
  obtain ⟨target, there⟩ : ∃ target, (codePtrs text)[statement.codeNr + label.codeNr]? = some target :=
    ⟨_, List.getElem?_eq_getElem leads.inside⟩
  obtain ⟨j, targetAt, _, targetCount⟩ := count_at_code text _ target there
  have targetNr := ready.textNr j target targetAt
  have own := count_take_succ text i statement here
  rw [if_neg counts] at own
  -- a line that so many statements precede is behind the jump
  have ahead (k : Nat) (count : countCode (text.take k) = statement.codeNr + label.codeNr) : i < k := by
    by_contra before
    have less := count_take_mono text k i (by omega)
    omega
  -- and not behind the target
  have notBehind (k : Nat) (count : countCode (text.take k) = statement.codeNr + label.codeNr) :
      k ≤ j := by
    by_contra behind
    have more := count_take_mono text (j + 1) k (by omega)
    have next := count_take_succ text j target targetAt
    rw [if_neg ‹target.line ≠ .empty›] at next
    omega
  have lands (e : Nat) (found : Emu.codeNrToTextNr text statement label = some (e + 1))
      (count : countCode (text.take e) = statement.codeNr + label.codeNr) :
      LandsAt text statement label (e + 1) := by
    have low := ahead e count
    have high := notBehind e count
    refine
      { found
        ahead := by omega
        target := ⟨target, there, by omega, fun k skipped from_ upTo at_ => ?_⟩
        count }
    exact between_empty text e j (by rw [count, targetCount]) (k - 1) (by omega) (by omega) skipped at_
  cases named : label.key with
  | none =>
      have zero := leads.default named
      refine ⟨i + 1 + 1, lands (i + 1) ?_ (by omega)⟩
      simp [Emu.codeNrToTextNr, named, textNr]
  | some key =>
      obtain ⟨filled, decl, declared, declares, declNr⟩ := leads.declared key named
      obtain ⟨d, declAt⟩ := List.mem_iff_getElem?.mp declared
      have declCode := ready.codeNr d decl declAt
      have count : countCode (text.take d) = statement.codeNr + label.codeNr := by omega
      have low := ahead d count
      have high := notBehind d count
      have inside : j < text.length := (List.getElem?_eq_some_iff.mp targetAt).1
      obtain ⟨e, found, above, below⟩ := find_decl_stops text key statement.textNr d decl declAt declares
        (by omega) (j + 1) (by omega) inside
      refine ⟨e + 1, lands e ?_ ?_⟩
      · unfold Emu.codeNrToTextNr
        rw [named, Option.getD_some]
        cases key with
        | nil => exact absurd rfl filled
        | cons first rest =>
            dsimp only
            rw [there]
            dsimp only
            rw [targetNr]
            exact found
      · have less := count_take_mono text d e above
        have more := count_take_mono text e j (by omega)
        omega

/-- The interpreter the code numbers prescribe, with the emulator's own effect on the
variables. `codeNr` counts from 1. -/
structure CodeState where
  codeNr : Nat
  vars : EmuVars

inductive CodeEnd where
  | returned (codeNr : Nat) (line : ReturnLine) (vars : EmuVars)
  | interrupted (codeNr : Nat) (vars : EmuVars)
  | stuck

def codeStep (code : List Statement) (state : CodeState) : Next CodeState CodeEnd :=
  match code[state.codeNr - 1]? with
  | none => .stop .stuck
  | some statement =>
      match statement.line with
      | .assign line =>
          match Emu.assignLine line state.vars with
          | none => .stop .stuck
          | some (true, _, vars) => .stop (.interrupted state.codeNr vars)
          | some (false, _, vars) => .go ⟨state.codeNr + 1, vars⟩
      | .jump line =>
          match Emu.jumpLine line state.vars with
          | none => .stop .stuck
          | some label => .go ⟨state.codeNr + 1 + label.codeNr, state.vars⟩
      | .return_ line => .stop (.returned state.codeNr (Emu.returnLine line state.vars) state.vars)
      | _ => .stop .stuck

/-- The number of the effective statement the emulator executes in this turn. -/
def executes (state : EmuState) : Option Nat :=
  if state.readIdx < state.execIdx then none
  else
    match state.text[state.readIdx - 1]? with
    | none => none
    | some statement => if statement.line = .empty then none else some statement.codeNr

theorem set_same (text : List Statement) (i : Nat) (statement : Statement)
    (found : text[i]? = some statement) : text.set i statement = text := by
  obtain ⟨inside, same⟩ := List.getElem?_eq_some_iff.mp found
  rw [← same]
  exact List.set_getElem_self inside

theorem ready_statement (text : List Statement) (insns : List Insn) (ready : TextReady text insns)
    (j : Nat) (statement : Statement) (found : (codePtrs text)[j]? = some statement) :
    ∃ insn mask, insns[j]? = some insn ∧ statement.line.Stands insn ∧
      insn.Admissible j insns.length mask ∧
      ∀ next ∈ insn.successors j, next < countCode text := by
  obtain ⟨insn, there, stands⟩ := ready.stands j statement found
  have nonempty : insns.map Insn.filter ≠ [] := by simpa using ready.nonempty
  obtain ⟨passes, ends⟩ := (check_prog_clean_iff merged _ nonempty).mp ready.clean
  have inside : j < (insns.map Insn.filter).length := by
    rw [List.length_map]
    exact (List.getElem?_eq_some_iff.mp there).1
  have fetched : insnAt (insns.map Insn.filter) j = some insn := by rw [insn_at_map, there]
  obtain ⟨other, same, admissible⟩ := passes j inside
  rw [fetched] at same
  cases same
  rw [List.length_map] at admissible
  refine ⟨insn, _, there, stands, admissible, fun next member => ?_⟩
  have bound := clean_successor merged _ passes ends j insn inside fetched next member
  rwa [List.length_map, ready.length] at bound

theorem stands_left (line : AssignLine) (insn : Insn) (stands : line.Stands insn) :
    line.leftVar.type ∈ [.A, .X, .mem] := by
  cases stands with
  | neg left | alu _ _ left | txa left | tax left | ldAbs _ left | st _ left => simp [left]
  | ldImm dst left | ldMem dst left | ldLen dst left =>
      rw [left]
      cases dst <;> decide

theorem stands_falls (line : AssignLine) (insn : Insn) (stands : line.Stands insn) (pc : Nat) :
    insn.successors pc = [pc + 1] := by
  cases stands <;> rfl

theorem interrupted_divides (line : AssignLine) (insn : Insn) (stands : line.Stands insn)
    (pc flen : Nat) (mask : BitVec 16) (admissible : insn.Admissible pc flen mask) (vars : EmuVars)
    (none_ : insn.emulated vars = none) :
    line.operator = .divideTo ∧ line.rightVar.type = .X ∧ vars .X = 0 := by
  cases stands with
  | alu op src left operator right =>
      simp only [Insn.emulated] at none_
      split at none_
      · next divides =>
          obtain ⟨rfl, zero⟩ := divides
          rcases src_cases _ _ right with ⟨type, rfl⟩ | ⟨type, rfl⟩
          · exact ⟨operator, type, zero⟩
          · exact absurd zero (fun same => admissible (by simp [show line.rightVar.data = 0 from same]))
      · cases none_
  | neg | txa | tax | ldImm | ldMem | ldLen | ldAbs | st => cases none_

theorem jump_takes (line : JumpLine) (insn : Insn) (stands : line.Stands insn) (vars : EmuVars) :
    ∃ label, Emu.jumpLine line vars = some label ∧ line.Takes label := by
  unfold Emu.jumpLine
  cases stands with
  | ja plain =>
      rw [plain]
      exact ⟨line.jt, rfl, Or.inl rfl⟩
  | jmp op src reversed conditional comparator able operand =>
      rw [conditional, comparator]
      obtain ⟨holds, known⟩ : ∃ holds,
          Emu.doCompare (if reversed then op.reverseType else op.type) (vars .A)
            (if line.cmpobj.type = .X then vars .X else line.cmpobj.data) = some holds := by
        cases op <;> cases reversed <;> exact ⟨_, rfl⟩
      simp only [Bool.not_true, Bool.false_eq_true, if_false, known, Option.map_some]
      by_cases taken : (line.ifBang ^^ holds) = true
      · rw [if_pos taken]
        exact ⟨line.jt, rfl, Or.inl rfl⟩
      · rw [if_neg taken]
        exact ⟨line.jf, rfl, Or.inr ⟨conditional, rfl⟩⟩

theorem return_line_keeps (line : ReturnLine) (vars : EmuVars) :
    ∃ shown, Emu.returnLine line vars = { line with realObj := shown } := by
  unfold Emu.returnLine
  dsimp only
  split
  · exact ⟨_, rfl⟩
  · split
    · exact ⟨_, rfl⟩
    · exact ⟨_, rfl⟩

/-- The emulator in front of line `readIdx`, and the statement it comes to. -/
structure Follows (text : List Statement) (state : EmuState) (mirror : CodeState) : Prop where
  unchanged : state.text = text
  vars : state.vars = mirror.vars
  from_ : 1 ≤ state.readIdx
  order : state.readIdx ≤ state.execIdx
  count : countCode (text.take (state.execIdx - 1)) + 1 = mirror.codeNr
  inside : mirror.codeNr ≤ countCode text

/-- How both end: in front of the same line, with the same variables. -/
def EndsAlike (text : List Statement) (answer : EmuEnd) (same : CodeEnd) : Prop :=
  match answer, same with
  | .out statement state, .returned codeNr line vars =>
      ∃ before given shown, (codePtrs text)[codeNr - 1]? = some before ∧
        before.line = .return_ given ∧ line = { given with realObj := shown } ∧
        statement = { before with line := .return_ line } ∧
        state.text = text.set (before.textNr - 1) statement ∧ state.vars = vars
  | .out statement state, .interrupted codeNr vars =>
      (codePtrs text)[codeNr - 1]? = some statement ∧ state.text = text ∧ state.vars = vars ∧
        ∃ line, statement.line = .assign line ∧ line.operator = .divideTo ∧
          line.rightVar.type = .X ∧ vars .X = 0
  | _, _ => False

section Following

variable {text : List Statement} {state : EmuState} {mirror : CodeState} (follows : Follows text state mirror)

include follows

theorem follows_reads : ∃ statement, text[state.readIdx - 1]? = some statement ∧
    state.readIdx - 1 < text.length := by
  have inside : state.execIdx - 1 < text.length := by
    by_contra beyond
    have all : text.take (state.execIdx - 1) = text := List.take_of_length_le (by omega)
    have count := follows.count
    have bound := follows.inside
    rw [all] at count
    omega
  have reads : state.readIdx - 1 < text.length := by
    have order := follows.order
    omega
  exact ⟨_, List.getElem?_eq_getElem reads, reads⟩

theorem follows_skips (skips : state.readIdx < state.execIdx) :
    emulatorStep state = .go { state with readIdx := state.readIdx + 1 } ∧
      executes state = none ∧
      Follows text { state with readIdx := state.readIdx + 1 } mirror := by
  obtain ⟨statement, found, inside⟩ := follows_reads follows
  have reads : state.readIdx < text.length + 1 := by omega
  refine ⟨?_, by rw [executes, if_pos skips], ?_⟩
  · unfold emulatorStep
    rw [follows.unchanged, if_pos reads, found]
    dsimp only
    rw [if_pos skips]
  · exact
      { unchanged := follows.unchanged
        vars := follows.vars
        from_ := Nat.le_add_left 1 _
        order := skips
        count := follows.count
        inside := follows.inside }

theorem follows_empty (statement : Statement) (found : text[state.readIdx - 1]? = some statement)
    (aimed : ¬ state.readIdx < state.execIdx) (empty : statement.line = .empty) :
    emulatorStep state =
        .go { state with readIdx := state.readIdx + 1, execIdx := state.execIdx + 1 } ∧
      executes state = none ∧
      Follows text { state with readIdx := state.readIdx + 1, execIdx := state.execIdx + 1 }
        mirror := by
  obtain ⟨_, _, inside⟩ := follows_reads follows
  have from_ := follows.from_
  have order := follows.order
  have reads : state.readIdx < text.length + 1 := by omega
  have aim : state.execIdx = state.readIdx := by omega
  refine ⟨?_, ?_, ?_⟩
  · unfold emulatorStep
    rw [follows.unchanged, if_pos reads, found]
    dsimp only
    rw [if_neg aimed, empty]
  · rw [executes, if_neg aimed, follows.unchanged, found]
    dsimp only
    rw [if_pos empty]
  · have step := count_take_succ text (state.readIdx - 1) statement found
    rw [if_pos empty] at step
    have count := follows.count
    exact
      { unchanged := follows.unchanged
        vars := follows.vars
        from_ := Nat.le_add_left 1 _
        order := by
          dsimp only
          omega
        count := by
          dsimp only
          rw [aim] at count ⊢
          have same : state.readIdx + 1 - 1 = state.readIdx - 1 + 1 := by omega
          rw [same, step, Nat.add_zero]
          exact count
        inside := follows.inside }

variable {insns : List Insn} (ready : TextReady text insns)
variable (statement : Statement) (found : text[state.readIdx - 1]? = some statement)
variable (aimed : ¬ state.readIdx < state.execIdx) (counts : statement.line ≠ .empty)

include ready found aimed counts

theorem follows_statement : (codePtrs text)[mirror.codeNr - 1]? = some statement ∧
    statement.codeNr = mirror.codeNr ∧ statement.textNr = state.readIdx ∧
    executes state = some mirror.codeNr := by
  have from_ := follows.from_
  have order := follows.order
  have aim : state.execIdx = state.readIdx := by omega
  have count := follows.count
  rw [aim] at count
  have number := ready.codeNr _ statement found
  have nr := ready.textNr _ statement found
  have there := code_at_count text _ statement found counts
  refine ⟨?_, by omega, by omega, ?_⟩
  · rw [← count, Nat.add_sub_cancel]
    exact there
  · rw [executes, if_neg aimed, follows.unchanged, found]
    dsimp only
    rw [if_neg counts, number, count]

theorem follows_assign (line : AssignLine) (assigns : statement.line = .assign line) :
    (∃ next reached, emulatorStep state = .go next ∧ codeStep (codePtrs text) mirror = .go reached ∧
      Follows text next reached ∧ next.readIdx = state.readIdx + 1) ∨
    ∃ answer same, emulatorStep state = .stop answer ∧
      codeStep (codePtrs text) mirror = .stop same ∧ EndsAlike text answer same := by
  obtain ⟨_, _, inside⟩ := follows_reads follows
  obtain ⟨there, _, textNr, _⟩ := follows_statement follows ready statement found aimed counts
  obtain ⟨insn, mask, _, stands, admissible, bound⟩ := ready_statement text insns ready _ statement there
  rw [assigns] at stands
  have stands : line.Stands insn := stands
  have from_ := follows.from_
  have order := follows.order
  have reads : state.readIdx < text.length + 1 := by omega
  have near := (ready.near statement (List.mem_of_getElem? found)).args line assigns
  have effect := assign_emulated line insn stands _ _ mask admissible
    (fun arg => near arg (stands_left line insn stands)) state.vars
  have stays : text.set (state.readIdx - 1) { statement with line := .assign line } = text := by
    rw [← assigns]
    exact set_same text _ statement found
  have same : ({ statement with line := .assign line } : Statement) = statement := by rw [← assigns]
  -- an assignment is interrupted by a division by zero, or both sides go on
  cases result : insn.emulated state.vars with
  | some after =>
      rw [result] at effect
      have turn : emulatorStep state =
          .go { readIdx := state.readIdx + 1, execIdx := state.execIdx + 1, vars := after, text } := by
        unfold emulatorStep
        rw [follows.unchanged, if_pos reads, found]
        dsimp only
        rw [if_neg aimed, assigns]
        dsimp only
        rw [effect]
        dsimp only [emulatedResult]
        rw [stays]
        rfl
      have mirrorTurn : codeStep (codePtrs text) mirror = .go ⟨mirror.codeNr + 1, after⟩ := by
        unfold codeStep
        rw [there]
        dsimp only
        rw [assigns]
        dsimp only
        rw [← follows.vars, effect]
        rfl
      refine Or.inl ⟨_, _, turn, mirrorTurn, ?_, rfl⟩
      have count := follows.count
      have aim : state.execIdx = state.readIdx := by omega
      have step := count_take_succ text (state.readIdx - 1) statement found
      rw [if_neg counts] at step
      exact
        { unchanged := rfl
          vars := rfl
          from_ := Nat.le_add_left 1 _
          order := by
            dsimp only
            omega
          count := by
            dsimp only
            rw [aim] at count ⊢
            have same : state.readIdx + 1 - 1 = state.readIdx - 1 + 1 := by omega
            rw [same, step, ← count]
          inside := by
            dsimp only
            have falls := bound (mirror.codeNr - 1 + 1)
              (by rw [stands_falls line insn stands]; exact List.mem_singleton_self _)
            omega }
  | none =>
      rw [result] at effect
      have turn : emulatorStep state = .stop (.out statement state) := by
        unfold emulatorStep
        rw [follows.unchanged, if_pos reads, found]
        dsimp only
        rw [if_neg aimed, assigns]
        dsimp only
        rw [effect]
        dsimp only [emulatedResult]
        rw [stays, same, if_pos rfl]
        simp only [Emu.leave, assigns, ← follows.unchanged]
      have mirrorTurn : codeStep (codePtrs text) mirror =
          .stop (.interrupted mirror.codeNr state.vars) := by
        unfold codeStep
        rw [there]
        dsimp only
        rw [assigns]
        dsimp only
        rw [← follows.vars, effect]
        rfl
      obtain ⟨divides, byX, zero⟩ :=
        interrupted_divides line insn stands _ _ mask admissible state.vars result
      exact Or.inr ⟨_, _, turn, mirrorTurn, there, follows.unchanged, rfl, line, assigns, divides, byX,
        zero⟩

theorem follows_jump (line : JumpLine) (jumps : statement.line = .jump line) :
    ∃ next reached, emulatorStep state = .go next ∧ codeStep (codePtrs text) mirror = .go reached ∧
      Follows text next reached ∧ next.readIdx = state.readIdx + 1 := by
  obtain ⟨_, _, inside⟩ := follows_reads follows
  obtain ⟨there, codeNr, textNr, _⟩ := follows_statement follows ready statement found aimed counts
  obtain ⟨insn, mask, _, stands, admissible, bound⟩ := ready_statement text insns ready _ statement there
  rw [jumps] at stands
  have stands : line.Stands insn := stands
  have from_ := follows.from_
  have reads : state.readIdx < text.length + 1 := by omega
  obtain ⟨label, chosen, takes⟩ := jump_takes line insn stands state.vars
  have member := List.mem_of_getElem? found
  have leads := ready.leads statement member line jumps label takes
  -- the label stands at the first line with the code number it was resolved to
  obtain ⟨nr, lands⟩ := label_lands text insns ready statement member counts label leads
  have turn : emulatorStep state = .go { state with readIdx := state.readIdx + 1, execIdx := nr } := by
    unfold emulatorStep
    rw [follows.unchanged, if_pos reads, found]
    dsimp only
    rw [if_neg aimed, jumps]
    dsimp only
    rw [chosen]
    dsimp only
    rw [lands.found, ← follows.unchanged]
  have mirrorTurn : codeStep (codePtrs text) mirror =
      .go ⟨mirror.codeNr + 1 + label.codeNr, state.vars⟩ := by
    unfold codeStep
    rw [there]
    dsimp only
    rw [jumps]
    dsimp only
    rw [← follows.vars, chosen]
  refine ⟨_, _, turn, mirrorTurn, ?_, rfl⟩
  have ahead := lands.ahead
  have count := lands.count
  have target := leads.inside
  exact
    { unchanged := follows.unchanged
      vars := rfl
      from_ := Nat.le_add_left 1 _
      order := by
        dsimp only
        omega
      count := by
        dsimp only
        omega
      inside := by
        dsimp only
        omega }

theorem follows_return (line : ReturnLine) (returns : statement.line = .return_ line) :
    ∃ answer same, emulatorStep state = .stop answer ∧
      codeStep (codePtrs text) mirror = .stop same ∧ EndsAlike text answer same := by
  obtain ⟨_, _, inside⟩ := follows_reads follows
  obtain ⟨there, _, textNr, _⟩ := follows_statement follows ready statement found aimed counts
  have from_ := follows.from_
  have reads : state.readIdx < text.length + 1 := by omega
  refine ⟨.out { statement with line := .return_ (Emu.returnLine line state.vars) }
    { state with
      text := text.set (state.readIdx - 1)
        { statement with line := .return_ (Emu.returnLine line state.vars) } },
    .returned mirror.codeNr (Emu.returnLine line mirror.vars) mirror.vars, ?_, ?_, ?_⟩
  · unfold emulatorStep
    rw [follows.unchanged, if_pos reads, found]
    dsimp only
    rw [if_neg aimed, returns]
    rfl
  · unfold codeStep
    rw [there]
    dsimp only
    rw [returns]
  · obtain ⟨shown, keeps⟩ := return_line_keeps line mirror.vars
    refine ⟨statement, line, shown, there, returns, keeps, ?_, ?_, follows.vars⟩
    · rw [follows.vars]
    · rw [textNr]

end Following

theorem emulator_matched (text : List Statement) (insns : List Insn) (ready : TextReady text insns)
    (state : EmuState) (mirror : CodeState) (follows : Follows text state mirror) :
    (∃ next, emulatorStep state = .go next ∧ executes state = none ∧ Follows text next mirror ∧
      text.length + 1 - next.readIdx < text.length + 1 - state.readIdx) ∨
    (∃ next reached, emulatorStep state = .go next ∧ codeStep (codePtrs text) mirror = .go reached ∧
      executes state = some mirror.codeNr ∧ Follows text next reached ∧
      text.length + 1 - next.readIdx < text.length + 1 - state.readIdx) ∨
    ∃ answer same, emulatorStep state = .stop answer ∧
      codeStep (codePtrs text) mirror = .stop same ∧ executes state = some mirror.codeNr ∧
      EndsAlike text answer same := by
  obtain ⟨statement, found, inside⟩ := follows_reads follows
  have from_ := follows.from_
  have lower (next : EmuState) (reads : next.readIdx = state.readIdx + 1) :
      text.length + 1 - next.readIdx < text.length + 1 - state.readIdx := by omega
  -- lines that are skipped or empty are steps of the emulator alone; `readIdx` grows with each
  by_cases skips : state.readIdx < state.execIdx
  · obtain ⟨turn, silent, again⟩ := follows_skips follows skips
    exact Or.inl ⟨_, turn, silent, again, lower _ rfl⟩
  · by_cases empty : statement.line = .empty
    · obtain ⟨turn, silent, again⟩ := follows_empty follows statement found skips empty
      exact Or.inl ⟨_, turn, silent, again, lower _ rfl⟩
    · obtain ⟨there, _, _, shown⟩ := follows_statement follows ready statement found skips empty
      obtain ⟨insn, _, _, stands, _⟩ := ready_statement text insns ready _ statement there
      refine Or.inr ?_
      cases line : statement.line with
      | assign l =>
          rcases follows_assign follows ready statement found skips empty l line with
            ⟨next, reached, turn, mirrorTurn, again, reads⟩ | ⟨answer, same, turn, mirrorTurn, alike⟩
          · exact Or.inl ⟨next, reached, turn, mirrorTurn, shown, again, lower next reads⟩
          · exact Or.inr ⟨answer, same, turn, mirrorTurn, shown, alike⟩
      | jump l =>
          obtain ⟨next, reached, turn, mirrorTurn, again, reads⟩ :=
            follows_jump follows ready statement found skips empty l line
          exact Or.inl ⟨next, reached, turn, mirrorTurn, shown, again, lower next reads⟩
      | return_ l =>
          obtain ⟨answer, same, turn, mirrorTurn, alike⟩ :=
            follows_return follows ready statement found skips empty l line
          exact Or.inr ⟨answer, same, turn, mirrorTurn, shown, alike⟩
      | empty => exact absurd line empty
      | eof | error e =>
          rw [line] at stands
          exact stands.elim

theorem follows_begin (text : List Statement) (vars : EmuVars) (some_ : 1 ≤ countCode text) :
    Follows text (.begin text vars) ⟨1, vars⟩ :=
  { unchanged := rfl
    vars := rfl
    from_ := Nat.le_refl 1
    order := Nat.le_refl 1
    count := rfl
    inside := some_ }

/-- The emulator leaves its loop at a statement, after the statements that the code
numbers prescribe. -/
theorem emulator_follows (text : List Statement) (insns : List Insn) (ready : TextReady text insns)
    (vars : EmuVars) :
    ∃ answer same, Emu.emulator text vars = some answer ∧
      Machine.result (codeStep (codePtrs text)) (text.length + 1) ⟨1, vars⟩ = some same ∧
      EndsAlike text answer same ∧
      Machine.trace emulatorStep executes (text.length + 1) (.begin text vars) =
        Machine.trace (codeStep (codePtrs text)) (fun mirror => some mirror.codeNr)
          (text.length + 1) ⟨1, vars⟩ := by
  have some_ : 1 ≤ countCode text := by
    rw [← ready.length]
    exact List.length_pos_iff.mpr ready.nonempty
  have start := follows_begin text vars some_
  exact Machine.stuttering_simulation emulatorStep (codeStep (codePtrs text)) executes
    (fun mirror => some mirror.codeNr) (Follows text) (EndsAlike text)
    (fun state => text.length + 1 - state.readIdx) (emulator_matched text insns ready)
    (text.length + 1) _ _ start (by simp only [EmuState.begin]; omega)

/-- The emulator executes the statements the code numbers name, from the first to a
return or a division by a zero `$X`, and every label leads where its offset says. -/
theorem emulator_follows_code {lib : Libseccomp} {localArch : Word}
    (program : TextProgram lib localArch) (vars : EmuVars) :
    (∃ statement state ending, Emu.emulator program.text vars = some (.out statement state) ∧
      Machine.result (codeStep program.code) (program.text.length + 1) ⟨1, vars⟩ = some ending ∧
      EndsAlike program.text (.out statement state) ending ∧
      ((∃ line, statement.line = .return_ line) ∨
        ∃ line, statement.line = .assign line ∧ line.operator = .divideTo ∧
          line.rightVar.type = .X ∧ state.vars .X = 0)) ∧
    Machine.trace emulatorStep executes (program.text.length + 1) (.begin program.text vars) =
      Machine.trace (codeStep program.code) (fun mirror => some mirror.codeNr)
        (program.text.length + 1) ⟨1, vars⟩ ∧
    ∀ statement ∈ program.text, ∀ line, statement.line = .jump line → ∀ label, line.Takes label →
      ∃ nr, LandsAt program.text statement label nr := by
  obtain ⟨insns, assembles⟩ := program_assembles program
  have ready := program_ready program insns assembles
  obtain ⟨answer, ending, found, there, alike, traces⟩ := emulator_follows _ _ ready vars
  rw [program_ptrs program insns assembles] at there traces
  refine ⟨?_, traces, fun statement member line jumps label takes => ?_⟩
  · cases answer with
    | failed => cases ending <;> exact alike.elim
    | out statement state =>
        refine ⟨statement, state, ending, found, there, alike, ?_⟩
        cases ending with
        | returned codeNr line vars =>
            obtain ⟨before, _, _, _, _, _, rfl, _, _⟩ := alike
            exact Or.inl ⟨line, rfl⟩
        | interrupted codeNr vars =>
            obtain ⟨_, _, rfl, line, assigns, divides, byX, zero⟩ := alike
            exact Or.inr ⟨line, assigns, divides, byX, zero⟩
        | stuck => exact alike.elim
  · have counts : statement.line ≠ .empty := by
      rw [jumps]
      exact nofun
    exact label_lands _ insns ready statement member counts label
      (ready.leads statement member line jumps label takes)

/-- With `arch` still zero the guard jumps over the second statement. -/
theorem emulator_follows_code_arch_guard :
    Machine.trace emulatorStep executes (archGuardProgram.text.length + 1)
      (.begin archGuardProgram.text .static) = [1, 2, 4] := by
  obtain ⟨_, traces, _⟩ := emulator_follows_code archGuardProgram .static
  rw [traces]
  decide +kernel

end Ceccomp
