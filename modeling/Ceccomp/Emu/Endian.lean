import Ceccomp.Lib.Bytes
import Ceccomp.Emu.Agreement

/-!
Attributes on targets of either byte order. The assembler takes the offsets of the halves
of a 64-bit field from one table, which is that of a little-endian target.
-/

namespace Ceccomp

open Bytes (Order)

/-- `__AUDIT_ARCH_LE`, by which `need_reverse_endian` decides. -/
def auditArchLe : Word := 0x40000000

/-- The byte order of a target. -/
def byteOrder (scmpArch : Word) : Order :=
  if scmpArch &&& auditArchLe ≠ 0 then .little else .big

/-- `struct seccomp_data` in memory. -/
def SeccompData.bytes (data : SeccompData) (order : Order) : List (BitVec 8) :=
  order.encode 4 data.nr.toNat ++ order.encode 4 data.arch.toNat ++
    order.encode 8 data.instructionPointer.toNat ++
    (List.ofFn data.args).flatMap fun arg => order.encode 8 arg.toNat

/-- What `LD|W|ABS` loads: a word in the byte order of the target. -/
def SeccompData.loadAbs (data : SeccompData) (order : Order) (offset : Word) : Option Word :=
  (order.read 4 (data.bytes order) offset.toNat).map (BitVec.ofNat 32)

/-- The words of a 64-bit field as they stand one after the other. -/
def halves (order : Order) (value : BitVec 64) : List Word :=
  match order with
  | .little => [lowHalf value, highHalf value]
  | .big => [highHalf value, lowHalf value]

def SeccompData.wordsIn (data : SeccompData) (order : Order) : List Word :=
  [data.nr, data.arch] ++ halves order data.instructionPointer ++
    (List.ofFn data.args).flatMap (halves order)

theorem halves_encoded (order : Order) (value : BitVec 64) :
    order.encode 8 value.toNat =
      (halves order value).flatMap fun word => order.encode 4 word.toNat := by
  have low : (lowHalf value).toNat = value.toNat % 256 ^ 4 := by
    simp [lowHalf]
  have high : (highHalf value).toNat = value.toNat / 256 ^ 4 := by
    simp [highHalf, Nat.shiftRight_eq_div_pow]
    omega
  cases order with
  | little =>
      rw [halves, List.flatMap_cons, List.flatMap_cons, List.flatMap_nil, List.append_nil, low, high,
        Bytes.encode_mod]
      exact Bytes.encode_little_add 4 value.toNat
  | big =>
      rw [halves, List.flatMap_cons, List.flatMap_cons, List.flatMap_nil, List.append_nil, low, high,
        Bytes.encode_mod]
      exact Bytes.encode_big_add 4 value.toNat

theorem bytes_words (data : SeccompData) (order : Order) :
    data.bytes order =
      ((data.wordsIn order).map BitVec.toNat).flatMap (order.encode 4) := by
  unfold SeccompData.bytes SeccompData.wordsIn
  rw [halves_encoded]
  simp [halves_encoded, List.flatMap_map]

theorem load_abs_word (data : SeccompData) (order : Order) (offset : Word) (idx : Nat)
    (aligned : offset.toNat = 4 * idx) : data.loadAbs order offset = (data.wordsIn order)[idx]? := by
  have small : ∀ word ∈ (data.wordsIn order).map BitVec.toNat, word < 256 ^ 4 := by
    intro word member
    obtain ⟨shown, _, rfl⟩ := List.mem_map.mp member
    exact shown.isLt
  rw [SeccompData.loadAbs, bytes_words, aligned, Bytes.read_words order 4 _ (by decide) small,
    List.getElem?_map, Option.map_map]
  cases (data.wordsIn order)[idx]? with
  | none => rfl
  | some word => simp

def Cell.assigned : Cell → Bool
  | .A | .X | .mem _ => true
  | _ => false

theorem data_cell_unassigned (offset : Nat) : (dataCell offset).assigned = false := by
  obtain ⟨A, X, mem⟩ := data_cell_apart offset
  cases cell : dataCell offset with
  | A => exact absurd cell A
  | X => exact absurd cell X
  | mem slot => exact absurd cell (mem slot)
  | _ => rfl

/-- The attributes are still what `init_attr` made them. -/
def AttrsKept (arg : EmuArg) (nr : Word) (vars : EmuVars) : Prop :=
  ∀ cell, cell.assigned = false → vars cell = Emu.entered arg nr .static cell

theorem emulated_attrs (insn : Insn) (vars after : EmuVars) (done : insn.emulated vars = some after)
    (cell : Cell) (kept : cell.assigned = false) : after cell = vars cell := by
  have apart (other : Cell) (written : other.assigned = true) : cell ≠ other := by
    rintro rfl
    rw [kept] at written
    cases written
  have reg (dst : Reg) : cell ≠ dst.cell := apart _ (by cases dst <;> rfl)
  have plain (other : Cell) (written : other.assigned = true) (value : Word) (held : EmuVars) :
      Function.update held other value cell = held cell :=
    Function.update_of_ne (apart other written) value held
  cases insn with
  | ldLen dst | ldImm dst k | ldMem dst k =>
      cases done
      exact Function.update_of_ne (reg dst) _ _
  | ldAbs k | st src k | neg | tax | txa =>
      cases done
      exact plain _ rfl _ _
  | alu op src =>
      simp only [Insn.emulated] at done
      split at done
      · cases done
      · cases done
        rw [plain .A rfl]
        split
        · exact plain .X rfl _ _
        · rfl
  | ja k | jmp op src jt jf | retA | retK k =>
      cases done
      rfl

theorem code_step_attrs (text : List Statement) (insns : List Insn) (ready : TextReady text insns)
    (state next : CodeState) (moved : codeStep (codePtrs text) state = .go next) (cell : Cell)
    (kept : cell.assigned = false) : next.vars cell = state.vars cell := by
  unfold codeStep at moved
  split at moved
  · cases moved
  · next statement found =>
      split at moved
      · next line assigns =>
          obtain ⟨insn, mask, _, stands, admissible, _⟩ := ready_statement text insns ready _ _ found
          have member : statement ∈ text := (List.mem_filter.mp (List.mem_of_getElem? found)).1
          rw [assigns] at stands
          have effect := assign_emulated line insn stands _ _ mask admissible
            (fun arg => (ready.near statement member).args line assigns arg (stands_left line insn stands))
            state.vars
          rw [effect] at moved
          cases done : insn.emulated state.vars with
          | none =>
              rw [done] at moved
              cases moved
          | some after =>
              rw [done] at moved
              cases moved
              exact emulated_attrs insn state.vars after done cell kept
      · split at moved
        · cases moved
        · cases moved
          rfl
      · cases moved
      · cases moved

theorem run_attrs_kept (text : List Statement) (insns : List Insn) (ready : TextReady text insns)
    (arg : EmuArg) (nr : Word) (vars : EmuVars) (start : AttrsKept arg nr vars) (n : Nat)
    (state : Emu.EmuState)
    (reached : Machine.after Emu.emulatorStep (.begin text vars) n = some state) :
    AttrsKept arg nr state.vars := by
  have some_ : 1 ≤ countCode text := by
    rw [← ready.length]
    exact List.length_pos_iff.mpr ready.nonempty
  have invariant := Machine.after_invariant Emu.emulatorStep
    (fun state => ∃ mirror, Follows text state mirror ∧ AttrsKept arg nr mirror.vars) ?_ _
    ⟨⟨1, vars⟩, follows_begin text vars some_, start⟩ n state reached
  · obtain ⟨mirror, follows, kept⟩ := invariant
    rw [follows.vars]
    exact kept
  · rintro before next ⟨mirror, follows, kept⟩ moved
    rcases emulator_matched text insns ready before mirror follows with
      ⟨other, turn, _, again, _⟩ | ⟨other, met, turn, mirrorTurn, _, again, _⟩ | ⟨_, _, stopped, _⟩
    · rw [moved] at turn
      cases turn
      exact ⟨mirror, again, kept⟩
    · rw [moved] at turn
      cases turn
      refine ⟨met, again, fun cell unassigned => ?_⟩
      rw [code_step_attrs text insns ready mirror met mirrorTurn cell unassigned]
      exact kept cell unassigned
    · rw [moved] at stopped
      cases stopped

/-- Both halves of the 64-bit field that an attribute is half of are the same. -/
def HalvesAgree (data : SeccompData) (obj : Obj) : Prop :=
  match obj.type with
  | .attrLowpc | .attrHighpc => lowHalf data.instructionPointer = highHalf data.instructionPointer
  | .attrLowarg | .attrHigharg =>
      ∀ idx : Fin 6, idx.val = obj.data.toNat → lowHalf (data.args idx) = highHalf (data.args idx)
  | _ => True

theorem load_same_iff (data : SeccompData) (order : Order) (obj : Obj) (offset : Word)
    (loads : Asm.offsetAbs obj = some offset)
    (inside : obj.type = .attrLowarg ∨ obj.type = .attrHigharg → obj.data.toNat ≤ 5) :
    ∃ word other, data.load offset.toNat = some word ∧ data.loadAbs order offset = some other ∧
      (word = other ↔ order = .little ∨ HalvesAgree data obj) := by
  obtain ⟨base, entry, rfl⟩ := Option.map_eq_some_iff.mp loads
  unfold Asm.offsetTable at entry
  split at entry
  case h_7 => cases entry
  case h_5 type =>
    cases entry
    have few := inside (Or.inl type)
    simp only [type, HalvesAgree, true_or, if_true]
    generalize obj.data.toNat = idx at few
    have aligned : (BitVec.ofNat 32 (16 + idx * 8)).toNat = 4 * (4 + 2 * idx) := by
      rw [BitVec.toNat_ofNat]
      omega
    rw [load_abs_word data order _ (4 + 2 * idx) aligned]
    interval_cases idx <;> cases order <;>
      exact ⟨_, _, rfl, rfl, by simp [Fin.forall_fin_succ]⟩
  case h_6 type =>
    cases entry
    have few := inside (Or.inr type)
    simp only [type, HalvesAgree, or_true, if_true]
    generalize obj.data.toNat = idx at few
    have aligned : (BitVec.ofNat 32 (20 + idx * 8)).toNat = 4 * (5 + 2 * idx) := by
      rw [BitVec.toNat_ofNat]
      omega
    rw [load_abs_word data order _ (5 + 2 * idx) aligned]
    cases order with
    | little => interval_cases idx <;> exact ⟨_, _, rfl, rfl, by simp⟩
    | big =>
        interval_cases idx <;>
          exact ⟨_, _, rfl, rfl, by simpa [Fin.forall_fin_succ] using eq_comm⟩
  case h_1 type =>
    cases entry
    rw [load_abs_word data order _ 0 (by simp [type])]
    cases order <;> exact ⟨_, _, by simp [type]; rfl, rfl, by simp [HalvesAgree, type]⟩
  case h_2 type =>
    cases entry
    rw [load_abs_word data order _ 1 (by simp [type])]
    cases order <;> exact ⟨_, _, by simp [type]; rfl, rfl, by simp [HalvesAgree, type]⟩
  case h_3 type =>
    cases entry
    rw [load_abs_word data order _ 2 (by simp [type])]
    cases order <;> exact ⟨_, _, by simp [type]; rfl, rfl, by simp [HalvesAgree, type]⟩
  case h_4 type =>
    cases entry
    rw [load_abs_word data order _ 3 (by simp [type])]
    cases order
    · exact ⟨_, _, by simp [type]; rfl, rfl, by simp [HalvesAgree, type]⟩
    · exact ⟨_, _, by simp [type]; rfl, rfl, by simp [HalvesAgree, type, eq_comm]⟩

/-- The emulator and the assembled load put the same word in `$A` exactly on little-endian
targets and where both halves of the field are the same. -/
theorem attributes_match_iff {lib : Libseccomp} {localArch : Word} (program : TextProgram lib localArch)
    (arg : EmuArg) (nr : Word) (mem : Nat → Word) :
    (∀ n state, Machine.after Emu.emulatorStep
        (.begin program.text (Emu.entered arg nr (.withMem mem))) n = some state →
      AttrsKept arg nr state.vars) ∧
    ∀ statement ∈ program.text, ∀ line, statement.line = .assign line →
      ∀ offset, asmStatement statement = some ⟨0x20, 0, 0, offset⟩ →
        ∀ vars, AttrsKept arg nr vars →
          ∃ after word, Emu.assignLine line vars = some (false, line, after) ∧
            (arg.data nr).loadAbs (byteOrder arg.scmpArch) offset = some word ∧
            (after .A = word ↔
              byteOrder arg.scmpArch = .little ∨ HalvesAgree (arg.data nr) line.rightVar) := by
  obtain ⟨insns, assembles⟩ := program_assembles program
  have ready := program_ready program insns assembles
  constructor
  · intro n state reached
    refine run_attrs_kept _ insns ready arg nr _ (fun cell unassigned => ?_) n state reached
    cases cell <;> first | rfl | cases unassigned
  · intro statement member line assigns offset asm vars kept
    obtain ⟨i, found⟩ := List.mem_iff_getElem?.mp member
    have counts : statement.line ≠ .empty := by
      rw [assigns]
      exact nofun
    have ptr := code_at_count _ i statement found counts
    obtain ⟨insn, mask, _, stands, admissible, _⟩ := ready_statement _ insns ready _ statement ptr
    -- the filter says which instruction the statement stands for
    have same : insn.filter = ⟨0x20, 0, 0, offset⟩ := by
      rw [asm_stands statement insn stands] at asm
      exact Option.some.inj asm
    have load : insn = .ldAbs offset := by
      have decoded := insn_of_filter insn
      rw [same] at decoded
      exact (Option.some.inj decoded).symm
    subst load
    rw [assigns] at stands
    have stands : line.Stands (.ldAbs offset) := stands
    have inside (isArg : line.rightVar.type = .attrLowarg ∨ line.rightVar.type = .attrHigharg) :
        line.rightVar.data.toNat ≤ 5 :=
      (ready.near statement member).args line assigns isArg (stands_left line _ stands)
    have effect := assign_emulated line _ stands _ _ mask admissible inside vars
    cases stands with
    | ldAbs offset left operator loads =>
        obtain ⟨word, other, little, there, agree⟩ := load_same_iff (arg.data nr)
          (byteOrder arg.scmpArch) line.rightVar offset loads inside
        refine ⟨_, other, effect, there, ?_⟩
        rw [Function.update_self, kept _ (data_cell_unassigned _),
          entered_words arg nr .static _ word little]
        exact agree

def archS390x : Word := 0x80000016

def firstArgument : Text := "$A = $low_args[0]\nreturn $A\n".toList

theorem first_argument_read : (readProgram namelessLib archS390x firstArgument).isSome = true := by
  decide +kernel

def firstArgumentProgram : TextProgram namelessLib archS390x :=
  (readProgram namelessLib archS390x firstArgument).get first_argument_read

/-- System call 0 with 1 for each argument. -/
def oneArg (scmpArch : Word) : EmuArg :=
  { scmpArch, sysName := some ['0'], args := fun _ => 1, ip := 0 }

def loadLowArg : AssignLine :=
  { leftVar := { type := .A, data := 0, literal := some "$A".toList }
    operator := .equal
    rightVar := { type := .attrLowarg, data := 0, literal := some "$low_args[0]".toList } }

theorem first_argument_loads : ∃ statement ∈ firstArgumentProgram.text,
    statement.line = .assign loadLowArg ∧ asmStatement statement = some ⟨0x20, 0, 0, 16⟩ := by
  decide +kernel

/-- Both load the first argument of a call on s390x, and the filter finds its high half. -/
theorem big_endian_halves_swapped :
    ¬ ∀ (lib : Libseccomp) (localArch : Word) (program : TextProgram lib localArch) (arg : EmuArg)
      (nr : Word), ∀ statement ∈ program.text, ∀ line, statement.line = .assign line →
      ∀ offset, asmStatement statement = some ⟨0x20, 0, 0, offset⟩ →
        ∀ vars, AttrsKept arg nr vars →
          ∃ after word, Emu.assignLine line vars = some (false, line, after) ∧
            (arg.data nr).loadAbs (byteOrder arg.scmpArch) offset = some word ∧ after .A = word := by
  intro claim
  obtain ⟨statement, member, assigns, asm⟩ := first_argument_loads
  obtain ⟨after, word, emulated, loaded, same⟩ := claim namelessLib archS390x firstArgumentProgram
    (oneArg archS390x) 0 statement member loadLowArg assigns 16 asm
    (Emu.entered (oneArg archS390x) 0 .static) (fun _ _ => rfl)
  have read : ((oneArg archS390x).data 0).loadAbs (byteOrder archS390x) 16 = some 0 := by
    decide +kernel
  have shown : (Emu.assignLine loadLowArg (Emu.entered (oneArg archS390x) 0 .static)).map
      (fun done => done.2.2 .A) = some 1 := by
    decide +kernel
  rw [show (oneArg archS390x).scmpArch = archS390x from rfl, read] at loaded
  cases loaded
  rw [emulated] at shown
  have one : after .A = 1 := Option.some.inj shown
  rw [same] at one
  exact absurd one (by decide)

theorem attributes_match_iff_s390x :
    ∃ statement ∈ firstArgumentProgram.text, ∃ after word,
      Emu.assignLine loadLowArg (Emu.entered (oneArg archS390x) 0 .static) =
        some (false, loadLowArg, after) ∧
      ((oneArg archS390x).data 0).loadAbs .big 16 = some word ∧ asmStatement statement =
        some ⟨0x20, 0, 0, 16⟩ ∧ after .A ≠ word := by
  obtain ⟨statement, member, assigns, asm⟩ := first_argument_loads
  obtain ⟨after, word, emulated, loaded, agree⟩ := (attributes_match_iff firstArgumentProgram
    (oneArg archS390x) 0 (fun _ => 0)).2 statement member loadLowArg assigns 16 asm
    (Emu.entered (oneArg archS390x) 0 .static) (fun _ _ => rfl)
  have big : byteOrder (oneArg archS390x).scmpArch = .big := by decide
  refine ⟨statement, member, after, word, emulated, by rw [← big]; exact loaded, asm, ?_⟩
  rw [Ne, agree, big]
  rintro (little | halves)
  · cases little
  · exact absurd (halves 0 rfl) (by decide)

end Ceccomp
