import Ceccomp.Emu.Control
import Ceccomp.Emu.Emulate

/-!
The BPF machine the emulator amounts to: the classic one, but that a shift by `$X` first
cuts `$X` to five bits. Its result is what `emulate_v` prints.
-/

namespace Ceccomp

open Machine (Next)

def Regs.cut (regs : Regs) : Regs := { regs with X := regs.X &&& 0x1f }

def Insn.shiftsByX : Insn → Bool
  | .alu op .x => op == .lsh || op == .rsh
  | _ => false

def Insn.entered (insn : Insn) (regs : Regs) : Regs := if insn.shiftsByX then regs.cut else regs

def emulatedStep (stale : Nat → Word) (prog : List Filter) (data : SeccompData) (state : BpfState) :
    Next BpfState BpfEnd :=
  match insnAt prog state.pc with
  | none => .stop .stuck
  | some insn => insn.exec stale data state.pc (insn.entered state.regs)

theorem emulated_step_go (stale : Nat → Word) (prog : List Filter) (data : SeccompData)
    (state next : BpfState) (moved : emulatedStep stale prog data state = .go next) :
    ∃ insn, insnAt prog state.pc = some insn ∧
      insn.exec stale data state.pc (insn.entered state.regs) = .go next := by
  unfold emulatedStep at moved
  cases here : insnAt prog state.pc with
  | none => simp [here] at moved
  | some insn => exact ⟨insn, rfl, by simpa only [here] using moved⟩

theorem entered_mem (insn : Insn) (regs : Regs) : (insn.entered regs).mem = regs.mem := by
  unfold Insn.entered
  split <;> rfl

/-- The variables hold what the registers and the loaded structure do. -/
structure VarsMirror (stale : Nat → Word) (data : SeccompData) (state : CodeState) (mirror : BpfState) :
    Prop where
  pc : state.codeNr = mirror.pc + 1
  A : state.vars .A = mirror.regs.A
  X : state.vars .X = mirror.regs.X
  mem : ∀ slot, state.vars (.mem slot) = (mirror.regs.mem slot).getD (stale slot)
  len : state.vars .dataLen = seccompDataLen
  words : ∀ offset word, data.load offset = some word → state.vars (dataCell offset) = word

theorem data_cell_apart (offset : Nat) :
    dataCell offset ≠ .A ∧ dataCell offset ≠ .X ∧ ∀ slot, dataCell offset ≠ .mem slot := by
  unfold dataCell
  split <;> simp
  split <;> simp

section Effects

variable (stale : Nat → Word) (data : SeccompData) (state : CodeState) (mirror : BpfState)
variable (mirrors : VarsMirror stale data state mirror)

include mirrors

theorem vars_mirror_set (dst : Reg) (value : Word) :
    VarsMirror stale data ⟨state.codeNr + 1, Function.update state.vars dst.cell value⟩
      ⟨mirror.pc + 1, mirror.regs.set value dst⟩ := by
  have apart := data_cell_apart
  have pc := mirrors.pc
  cases dst with
  | A =>
      exact
        { pc := by simp only [pc]
          A := by simp [Reg.cell, Regs.set]
          X := by simpa [Reg.cell, Regs.set] using mirrors.X
          mem := by simpa [Reg.cell, Regs.set] using mirrors.mem
          len := by simpa [Reg.cell] using mirrors.len
          words := fun offset word found => by
            simpa [Reg.cell, (apart offset).1] using mirrors.words offset word found }
  | X =>
      exact
        { pc := by simp only [pc]
          A := by simpa [Reg.cell, Regs.set] using mirrors.A
          X := by simp [Reg.cell, Regs.set]
          mem := by simpa [Reg.cell, Regs.set] using mirrors.mem
          len := by simpa [Reg.cell] using mirrors.len
          words := fun offset word found => by
            simpa [Reg.cell, (apart offset).2.1] using mirrors.words offset word found }

theorem vars_mirror_store (slot : Nat) (value : Word) :
    VarsMirror stale data ⟨state.codeNr + 1, Function.update state.vars (.mem slot) value⟩
      ⟨mirror.pc + 1, mirror.regs.store slot value⟩ :=
  { pc := by simp only [mirrors.pc]
    A := by simpa [Regs.store] using mirrors.A
    X := by simpa [Regs.store] using mirrors.X
    mem := fun other => by
      by_cases same : other = slot
      · simp [Regs.store, same]
      · simpa [Regs.store, same] using mirrors.mem other
    len := by simpa using mirrors.len
    words := fun offset word found => by
      simpa [(data_cell_apart offset).2.2 slot] using mirrors.words offset word found }

theorem vars_mirror_cut : VarsMirror stale data
    ⟨state.codeNr, Function.update state.vars .X (state.vars .X &&& 0x1f)⟩
    ⟨mirror.pc, mirror.regs.cut⟩ :=
  { pc := mirrors.pc
    A := by simpa [Regs.cut] using mirrors.A
    X := by simp [Regs.cut, mirrors.X]
    mem := by simpa [Regs.cut] using mirrors.mem
    len := by simpa using mirrors.len
    words := fun offset word found => by
      simpa [(data_cell_apart offset).2.1] using mirrors.words offset word found }

theorem vars_mirror_get (reg : Reg) : state.vars reg.cell = mirror.regs.get reg := by
  cases reg with
  | A => exact mirrors.A
  | X => exact mirrors.X

theorem vars_mirror_src (src : Src) : src.emulated state.vars = src.eval mirror.regs := by
  cases src with
  | k value => rfl
  | x => exact mirrors.X

end Effects

theorem admissible_load (data : SeccompData) (k : Word) (pc flen : Nat) (mask : BitVec 16)
    (admissible : (Insn.ldAbs k).Admissible pc flen mask) :
    ∃ word, data.load k.toNat = some word := by
  obtain ⟨small, aligned⟩ := admissible
  have inside : k.toNat / 4 < data.words.length := by
    simp only [SeccompData.words, List.length_cons, List.length_nil]
    simp only [seccompDataSize] at small
    omega
  exact ⟨data.words[k.toNat / 4], by
    rw [SeccompData.load, if_pos aligned, List.getElem?_eq_getElem inside]⟩

def AssignsAlike (stale : Nat → Word) (data : SeccompData) (state : CodeState) (mirror : BpfState)
    (insn : Insn) : Prop :=
  (∃ after next, insn.emulated state.vars = some after ∧
    insn.exec stale data mirror.pc (insn.entered mirror.regs) = .go next ∧
    VarsMirror stale data ⟨state.codeNr + 1, after⟩ next) ∨
  (insn.emulated state.vars = none ∧
    insn.exec stale data mirror.pc (insn.entered mirror.regs) = .stop (.ret 0))

theorem alu_alike (stale : Nat → Word) (data : SeccompData) (state : CodeState) (mirror : BpfState)
    (mirrors : VarsMirror stale data state mirror) (op : AluOp) (src : Src) :
    AssignsAlike stale data state mirror (.alu op src) := by
  have value := vars_mirror_src stale data state mirror mirrors src
  by_cases zero : op = .div ∧ src.eval mirror.regs = 0
  · obtain ⟨rfl, zero⟩ := zero
    refine Or.inr ⟨?_, ?_⟩
    · rw [Insn.emulated, value, if_pos ⟨rfl, zero⟩]
    · have plain : (Insn.alu .div src).entered mirror.regs = mirror.regs := by
        cases src <;> simp [Insn.entered, Insn.shiftsByX]
      rw [plain, Insn.exec, if_pos ⟨rfl, zero⟩]
  · refine Or.inl ?_
    -- a shift by `$X` masks its amount in `$X` itself, and the kernel is compared from there
    by_cases shifts : (op = .lsh ∨ op = .rsh) ∧ src = .x
    · obtain ⟨shift, rfl⟩ := shifts
      have enters : (Insn.alu op .x).entered mirror.regs = mirror.regs.cut := by
        rcases shift with rfl | rfl <;> rfl
      have noDiv (regs : Regs) : ¬(op = .div ∧ Src.x.eval regs = 0) := by
        rcases shift with rfl | rfl <;> simp
      have cut := vars_mirror_cut stale data state mirror mirrors
      have set := vars_mirror_set stale data _ _ cut .A
        (op.eval mirror.regs.cut.A (Src.x.eval mirror.regs.cut))
      refine ⟨_, _, ?_, ?_, set⟩
      · rw [Insn.emulated, value, if_neg zero]
        dsimp only
        rw [if_pos ⟨shift, rfl⟩, vars_mirror_src stale data _ _ cut .x]
        have left := vars_mirror_get stale data _ _ cut .A
        dsimp only [Reg.cell, Regs.get] at left
        rw [left]
        rfl
      · rw [enters, Insn.exec, if_neg (noDiv _)]
    · have enters : (Insn.alu op src).entered mirror.regs = mirror.regs := by
        unfold Insn.entered
        rw [if_neg]
        intro shift
        apply shifts
        cases src with
        | k value => cases shift
        | x => exact ⟨by simpa [Insn.shiftsByX] using shift, rfl⟩
      refine ⟨_, _, ?_, ?_, vars_mirror_set stale data state mirror mirrors .A
        (op.eval mirror.regs.A (src.eval mirror.regs))⟩
      · rw [Insn.emulated, value, if_neg zero]
        dsimp only
        rw [if_neg shifts, value, mirrors.A]
        rfl
      · rw [enters, Insn.exec, if_neg zero]

theorem assign_alike (stale : Nat → Word) (data : SeccompData) (state : CodeState) (mirror : BpfState)
    (mirrors : VarsMirror stale data state mirror) (line : AssignLine) (insn : Insn)
    (stands : line.Stands insn) (pc flen : Nat) (mask : BitVec 16)
    (admissible : insn.Admissible pc flen mask) : AssignsAlike stale data state mirror insn := by
  have set := vars_mirror_set stale data state mirror mirrors
  have A := mirrors.A
  have X := mirrors.X
  cases stands with
  | alu op src => exact alu_alike stale data state mirror mirrors op src
  | neg => exact Or.inl ⟨_, _, rfl, rfl, A ▸ set .A _⟩
  | txa => exact Or.inl ⟨_, _, rfl, rfl, X ▸ set .A _⟩
  | tax => exact Or.inl ⟨_, _, rfl, rfl, A ▸ set .X _⟩
  | ldImm dst => exact Or.inl ⟨_, _, rfl, rfl, set dst _⟩
  | ldLen dst => exact Or.inl ⟨_, _, rfl, rfl, mirrors.len ▸ set dst _⟩
  | ldMem dst =>
      have small : line.rightVar.data.toNat < bpfMemWords := admissible.1
      refine Or.inl ⟨_, _, rfl, ?_, set dst (state.vars (.mem line.rightVar.data.toNat))⟩
      rw [Insn.exec, if_pos small, mirrors.mem]
      rfl
  | ldAbs offset =>
      obtain ⟨word, loaded⟩ := admissible_load data offset pc flen mask admissible
      refine Or.inl ⟨_, _, rfl, ?_, set .A (state.vars (dataCell offset.toNat))⟩
      rw [Insn.exec, loaded, mirrors.words _ _ loaded]
      rfl
  | st src =>
      have small : line.leftVar.data.toNat < bpfMemWords := admissible
      refine Or.inl ⟨_, _, rfl, ?_,
        vars_mirror_store stale data state mirror mirrors _ (state.vars src.cell)⟩
      rw [Insn.exec, if_pos small, vars_mirror_get stale data state mirror mirrors src]
      rfl

theorem compare_holds (op : JmpOp) (reversed : Bool) (able : reversed = true → op ≠ .jset)
    (a b : Word) :
    Emu.doCompare (if reversed then op.reverseType else op.type) a b = some (reversed ^^ op.holds a b) := by
  cases reversed with
  | false => cases op <;> simp [Emu.doCompare, JmpOp.type, JmpOp.holds]
  | true =>
      cases op with
      | jset => exact absurd rfl (able rfl)
      | jeq => simp [Emu.doCompare, JmpOp.reverseType, JmpOp.holds, bne]
      | jgt | jge =>
          simp only [Emu.doCompare, JmpOp.reverseType, JmpOp.holds, if_true, Bool.true_xor,
            ← decide_not, Nat.not_lt, Nat.not_le]

theorem jump_alike (stale : Nat → Word) (data : SeccompData) (state : CodeState) (mirror : BpfState)
    (mirrors : VarsMirror stale data state mirror) (line : JumpLine) (insn : Insn)
    (stands : line.Stands insn)
    (near : line.ifCondition = true → line.jt.codeNr ≤ 255 ∧ line.jf.codeNr ≤ 255)
    (small : line.jt.codeNr < 2 ^ 32) :
    ∃ label, Emu.jumpLine line state.vars = some label ∧ line.Takes label ∧
      insn.exec stale data mirror.pc (insn.entered mirror.regs) =
        .go ⟨mirror.pc + 1 + label.codeNr, mirror.regs⟩ := by
  have byte (label : Label) (fits : label.codeNr ≤ 255) :
      (BitVec.ofNat 8 label.codeNr).toNat = label.codeNr := by
    rw [BitVec.toNat_ofNat]
    omega
  cases stands with
  | ja plain =>
      refine ⟨line.jt, by rw [Emu.jumpLine, plain]; rfl, Or.inl rfl, ?_⟩
      have word : (BitVec.ofNat 32 line.jt.codeNr).toNat = line.jt.codeNr := by
        rw [BitVec.toNat_ofNat, Nat.mod_eq_of_lt small]
      simp only [Insn.exec, word]
      rfl
  | jmp op src reversed conditional comparator able operand =>
      obtain ⟨jtNear, jfNear⟩ := near conditional
      have right : (if line.cmpobj.type = .X then state.vars .X else line.cmpobj.data) =
          src.eval mirror.regs := by
        rcases src_cases _ _ operand with ⟨type, rfl⟩ | ⟨type, rfl⟩
        · rw [if_pos type]
          exact mirrors.X
        · rw [if_neg (by simp [type])]
          rfl
      have chosen : Emu.jumpLine line state.vars =
          some (if line.ifBang ^^ (reversed ^^ op.holds mirror.regs.A (src.eval mirror.regs)) then line.jt
            else line.jf) := by
        unfold Emu.jumpLine
        dsimp only
        rw [conditional, comparator, right, mirrors.A, compare_holds op reversed able]
        rfl
      refine ⟨_, chosen, ?_, ?_⟩
      · split
        · exact Or.inl rfl
        · exact Or.inr ⟨conditional, rfl⟩
      -- negation and a reversed comparator swap the labels, as `set_jt_jf` did
      · simp only [Insn.exec, Insn.entered, Insn.shiftsByX, Bool.false_eq_true, if_false]
        generalize op.holds mirror.regs.A (src.eval mirror.regs) = holds
        cases line.ifBang <;> cases reversed <;> cases holds <;> simp [byte _ jtNear, byte _ jfNear]

/-- The object the emulator prints for a value that was returned. -/
def actionObj (value : Word) : Obj :=
  let (obj, type) := decodeReturnK (.of .kill) value
  { obj with type }

theorem resolved_printed (obj : Obj) (value : Word) :
    Formatter.objPrinter { (decodeReturnK obj value).1 with type := (decodeReturnK obj value).2 } =
      Formatter.objPrinter (actionObj value) := by
  unfold actionObj decodeReturnK
  split <;> rfl

theorem action_printed (value : Word) : ∃ shown, Formatter.objPrinter (actionObj value) = some shown := by
  unfold actionObj
  generalize known : decodeReturnK (.of .kill) value = decoded
  unfold decodeReturnK at known
  split at known <;> cases known <;> exact ⟨_, rfl⟩

theorem small_data (value : Word) (small : value.toNat ≤ 0xffff) :
    value &&& seccompRetData = value ∧ value &&& seccompRetActionFull = 0 := by
  have kept : value &&& seccompRetData = value := by
    apply BitVec.eq_of_toNat_eq
    have mask : seccompRetData.toNat = 2 ^ 16 - 1 := rfl
    rw [BitVec.toNat_and, mask, Nat.and_two_pow_sub_one_eq_mod]
    omega
  refine ⟨kept, ?_⟩
  have apart : seccompRetData &&& seccompRetActionFull = 0#32 := rfl
  rw [← kept, BitVec.and_assoc, apart, BitVec.and_zero]
  rfl

theorem carried_decoded (obj : Obj) (type : TokenType) (value data : Word)
    (action : Asm.retvals type = some value)
    (small : data.toNat ≤ 0xffff) :
    decodeReturnK obj (value ||| data) =
      ({ obj with
        type
        data := if type ∈ [.trace, .trap, .errno] then data else obj.data }, type) := by
  obtain ⟨kept, cleared⟩ := small_data data small
  have full : (value ||| data) &&& seccompRetActionFull = value &&& seccompRetActionFull := by
    rw [BitVec.and_or_distrib_right, show data &&& seccompRetActionFull = 0#32 from cleared,
      BitVec.or_zero]
  have low : (value ||| data) &&& seccompRetData = (value &&& seccompRetData) ||| data := by
    rw [BitVec.and_or_distrib_right, kept]
  unfold decodeReturnK
  rw [full, low]
  unfold Asm.retvals at action
  split at action <;> cases action <;> simp [seccompRetActionFull, seccompRetData]

theorem return_alike (stale : Nat → Word) (data : SeccompData) (state : CodeState) (mirror : BpfState)
    (mirrors : VarsMirror stale data state mirror) (line : ReturnLine) (insn : Insn)
    (stands : line.Stands insn) (shaped : line.Shaped)
    (near : line.retObj.type ∈ [.trace, .trap, .errno] → line.retObj.data.toNat ≤ 0xffff) :
    ∃ value, insn.exec stale data mirror.pc (insn.entered mirror.regs) = .stop (.ret value) ∧
      Formatter.objPrinter (Emu.returnLine line state.vars).realObj =
        Formatter.objPrinter (actionObj value) := by
  cases stands with
  | a type =>
      refine ⟨mirror.regs.A, rfl, ?_⟩
      rw [Emu.returnLine]
      dsimp only
      rw [if_pos type, mirrors.A]
      exact resolved_printed _ _
  | number type =>
      refine ⟨line.retObj.data, rfl, ?_⟩
      rw [Emu.returnLine]
      dsimp only
      rw [if_neg (by simp [type]), if_pos type]
      exact resolved_printed _ _
  | action value action =>
      refine ⟨value ||| line.retObj.data, rfl, ?_⟩
      have other : line.retObj.type ≠ .A ∧ line.retObj.type ≠ .number := by
        constructor <;> intro same <;> simp [Asm.retvals, same] at action
      have small : line.retObj.data.toNat ≤ 0xffff := by
        rcases shaped with type | ⟨_, zero⟩
        · apply near
          simp only [List.mem_cons, other, false_or] at type
          simpa only [List.mem_cons] using type
        · rw [zero]
          exact Nat.zero_le _
      rw [Emu.returnLine]
      dsimp only
      rw [if_neg other.1, if_neg other.2, ← resolved_printed (.of .kill),
        carried_decoded (.of .kill) line.retObj.type value line.retObj.data action small]
      dsimp only
      unfold Asm.retvals at action
      split at action
      case h_9 => cases action
      all_goals
        next type =>
          rw [type]
          rfl

/-- How an interpreter of the statements and the BPF machine end alike. -/
def StopsAlike (ending : CodeEnd) (mirror : BpfEnd) : Prop :=
  match ending, mirror with
  | .returned _ line vars, .ret value =>
      Formatter.objPrinter line.realObj = Formatter.objPrinter (actionObj value) ∧
        vars .dataLen = seccompDataLen
  | .interrupted _ vars, .ret value => value = 0 ∧ vars .dataLen = seccompDataLen
  | _, _ => False

theorem code_matched (text : List Statement) (insns : List Insn) (ready : TextReady text insns)
    (stale : Nat → Word) (data : SeccompData) (state : CodeState) (mirror : BpfState)
    (related : VarsMirror stale data state mirror ∧ mirror.pc < insns.length) :
    (∀ next, codeStep (codePtrs text) state = .go next →
      ∃ reached, emulatedStep stale (insns.map Insn.filter) data mirror = .go reached ∧
        VarsMirror stale data next reached ∧ reached.pc < insns.length) ∧
    (∀ ending, codeStep (codePtrs text) state = .stop ending →
      ∃ same, emulatedStep stale (insns.map Insn.filter) data mirror = .stop same ∧
        StopsAlike ending same) := by
  obtain ⟨mirrors, inside⟩ := related
  have length := ready.length
  have pc := mirrors.pc
  have counted : mirror.pc < (codePtrs text).length := by
    rw [length, countCode] at inside
    exact inside
  have found := List.getElem?_eq_getElem counted
  generalize (codePtrs text)[mirror.pc] = statement at found
  obtain ⟨insn, mask, there, stands, admissible, bound⟩ := ready_statement text insns ready _ _ found
  have member : statement ∈ text := (List.mem_filter.mp (List.mem_of_getElem? found)).1
  have near := ready.near statement member
  have fetched : emulatedStep stale (insns.map Insn.filter) data mirror =
      insn.exec stale data mirror.pc (insn.entered mirror.regs) := by
    rw [emulatedStep, insn_at_map, there]
  have here : (codePtrs text)[state.codeNr - 1]? = some statement := by
    rw [pc, Nat.add_sub_cancel]
    exact found
  -- a step that goes on stays inside the program
  have stays (next : BpfState)
      (moved : insn.exec stale data mirror.pc (insn.entered mirror.regs) = .go next) :
      next.pc < insns.length := by
    rw [length]
    exact bound _ (exec_successor stale data mirror.pc _ insn next moved)
  unfold codeStep
  rw [here, fetched]
  dsimp only
  cases line : statement.line with
  | assign l =>
      rw [line] at stands
      have stands : l.Stands insn := stands
      have effect := assign_emulated l insn stands _ _ mask admissible
        (fun arg => near.args l line arg (stands_left l insn stands)) state.vars
      dsimp only
      rcases assign_alike stale data state mirror mirrors l insn stands _ _ mask admissible with
        ⟨after, next, emulated, moved, again⟩ | ⟨emulated, stopped⟩
      · rw [emulated] at effect
        rw [effect, moved]
        dsimp only [emulatedResult]
        refine ⟨fun other same => ?_, fun other same => by cases same⟩
        cases same
        exact ⟨next, rfl, again, stays next moved⟩
      · rw [emulated] at effect
        rw [effect, stopped]
        dsimp only [emulatedResult]
        refine ⟨fun other same => (by cases same), fun other same => ?_⟩
        cases same
        exact ⟨_, rfl, rfl, mirrors.len⟩
  | jump l =>
      rw [line] at stands
      have small : l.jt.codeNr < 2 ^ 32 := by
        have leads := (ready.leads statement member l line l.jt (Or.inl rfl)).inside
        have few := ready.few
        simp only [bpfMaxInsns] at few
        omega
      obtain ⟨label, chosen, _, moved⟩ := jump_alike stale data state mirror mirrors l insn stands
        (near.jump l line) small
      dsimp only
      rw [chosen, moved]
      refine ⟨fun other same => ?_, fun other same => by cases same⟩
      cases same
      refine ⟨_, rfl, ?_, stays _ moved⟩
      exact
        { pc := by
            dsimp only
            omega
          A := mirrors.A
          X := mirrors.X
          mem := mirrors.mem
          len := mirrors.len
          words := mirrors.words }
  | return_ l =>
      rw [line] at stands
      obtain ⟨value, stopped, printed⟩ := return_alike stale data state mirror mirrors l insn stands
        (near.ret l line).1 (near.ret l line).2
      dsimp only
      rw [stopped]
      refine ⟨fun other same => (by cases same), fun other same => ?_⟩
      cases same
      exact ⟨_, rfl, printed, mirrors.len⟩
  | empty | eof | error e =>
      rw [line] at stands
      exact stands.elim

end Ceccomp
