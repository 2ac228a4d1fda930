import Ceccomp.Ebpf.Folding

/-!
The first pass over a whole migrated program: every group folds to the filter
`Insn.folded` names, and no assertion fails.
-/

namespace Ceccomp

theorem not_swallows {prog : List Filter} {c : Nat} {insn : Insn}
    (here : insnAt prog c = some insn) (never : ∀ next, insn.mayEat next = false) :
    swallows prog c = false := by
  unfold swallows
  rw [here]
  cases insnAt prog (c + 1) with
  | none => rfl
  | some next => simp [never next]

theorem folds_plain {prog : List Filter} {ebpfs : Nat → BpfInsn} {c : Nat} {pass : Pass}
    {insn : Insn} (state : AtGroup prog ebpfs c pass) (here : insnAt prog c = some insn)
    (never : ∀ next, insn.mayEat next = false) (straight : insn.flagged c = [])
    (unfolded : insn.fold = 0) (filter : Filter) (meaning : filter.insn? = some (insn.folded false))
    (still : insn.isJa = false) :
    FoldsTo prog c insn pass.flags (filter, insn.groupSize - 1, pass.flags) := by
  have stays := not_swallows here never
  have next : nextGroup prog c = c + 1 := by simp [nextGroup, stays]
  have width := addr_next here
  have positive := group_size_pos insn
  refine ⟨by rw [stays]; exact meaning, by simp [still], by rw [next, width]; dsimp only; omega,
    ?_, ?_⟩
  · rw [next]
    refine marked_congr state.marked fun t => ?_
    rw [targeted_succ]
    simp [flaggedAt, here, straight]
  · intro idx
    split
    · next same => simpa [same, unfolded] using state.ahead idx (by omega)
    · rfl

theorem abs_offset (k : Word) (small : k.toNat < seccompDataSize) :
    BitVec.ofInt 32 (k.setWidth 16).toInt = k := by
  simp only [seccompDataSize] at small
  apply BitVec.eq_of_toNat_eq
  have narrow : (k.setWidth 16).toNat = k.toNat := by
    rw [BitVec.toNat_setWidth]
    omega
  rw [BitVec.toInt_eq_toNat_of_lt (by omega), narrow, BitVec.toNat_ofInt]
  omega

theorem slot_of_frame (k : Word) (small : k.toNat < bpfMemWords) : slotOf (frameOff k) = k := by
  simp only [bpfMemWords] at small
  have value : (frameOff k).toInt = -((k.toNat : Int) * 4 + 4) := by
    unfold frameOff
    generalize k.toNat = slot at small
    rw [BitVec.toInt_ofInt]
    apply Int.bmod_eq_of_le
    · simp only [Nat.reducePow]
      omega
    · simp only [Nat.reducePow]
      omega
  have slot : Int.tdiv (- -((k.toNat : Int) * 4 + 4) - 4) 4 = k.toNat := by
    rw [show - -((k.toNat : Int) * 4 + 4) - 4 = (k.toNat : Int) * 4 by omega]
    exact Int.mul_tdiv_cancel _ (by omega)
  apply BitVec.eq_of_toNat_eq
  rw [slotOf, value, slot, BitVec.toNat_ofInt]
  omega

theorem restore_len (imm len : BitVec 16) (k : Word) :
    restoreLen imm len (cbpfStmt imm k) =
      if k = seccompDataLen then cbpfStmt len 0 else cbpfStmt imm k := by
  simp [restoreLen, cbpfStmt]

theorem alu_imm {f : Filter} {op : AluOp} {src : Src} (decoded : f.insn? = some (.alu op src))
    (v : Word) (imm : src = .k v) : v = f.k := by
  subst imm
  have same := insn_over f _ decoded
  simp only [Insn.over, Insn.alu.injEq, Src.k.injEq, true_and] at same
  exact same.symm

theorem jmp_imm {f : Filter} {op : JmpOp} {src : Src} {jt jf : BitVec 8}
    (decoded : f.insn? = some (.jmp op src jt jf)) (v : Word) (imm : src = .k v) : v = f.k := by
  subst imm
  have same := insn_over f _ decoded
  simp only [Insn.over, Insn.jmp.injEq, Src.k.injEq, true_and] at same
  exact same.1.symm

theorem insn_of_alu (op : AluOp) (src : Src) (k : Word) (imm : ∀ v, src = .k v → v = k) :
    (cbpfStmt (0x04 ||| op.bits ||| src.bit) k).insn? = some (.alu op src) := by
  cases src with
  | x => cases op <;> simp [cbpfStmt, Filter.insn?, AluOp.bits, Src.bit]
  | k v =>
      obtain rfl := imm v rfl
      cases op <;> simp [cbpfStmt, Filter.insn?, AluOp.bits, Src.bit]

theorem fold_insn_mov_a (pass : Pass) (k : Word) (i : Nat)
    (first : pass.ebpfs i = mov32Imm bpfRegA k) :
    foldInsn pass i =
      if (pass.ebpfs (i + 1)).code = 0x95 ∧
          (pass.flags (i + (pass.flags i).fold.toNat + 1)).targeted = false then
        .ok (pass.write i (cbpfStmt 0x06 k, 1, pass.flags))
      else .ok (pass.write i (restoreLen 0x00 0x80 (cbpfStmt 0x00 k), 0, pass.flags)) := by
  have alu : aluInsn pass.ebpfs i pass.flags =
      (aluPlain pass.ebpfs i 0 pass.flags i).map (·, pass.ebpfs) := by
    simp [aluInsn, first, mov32Imm, BpfInsn.op, bpfRegA, bpfRegAx]
  have plain : foldInsn pass i = (aluPlain pass.ebpfs i 0 pass.flags i).map (pass.write i) := by
    simp only [foldInsn, alu, first, mov32Imm]
    simp [BpfInsn.cls]
    cases aluPlain pass.ebpfs i 0 pass.flags i <;> rfl
  rw [plain]
  by_cases eats : (pass.ebpfs (i + 1)).code = 0x95 ∧
      (pass.flags (i + (pass.flags i).fold.toNat + 1)).targeted = false
  · rw [if_pos eats]
    simp [aluPlain, jmpCheckRetK, first, mov32Imm, BpfInsn.cls, BpfInsn.op, bpfRegA, bpfRegX,
      eats, restoreLen, cbpfStmt, Except.map]
  · rw [if_neg eats]
    simp only [aluPlain, jmpCheckRetK, if_neg eats, first]
    simp [mov32Imm, BpfInsn.cls, BpfInsn.op, bpfRegA, bpfRegX, Except.map]

theorem first_code (addrs : Nat → Nat) (c : Nat) (k : Word) (insn : Insn) (first : BpfInsn)
    (head : (convertInsn addrs c k insn)[0]? = some first) :
    (first.code = 0x05 ↔ insn.isJa = true) ∧ (first.code = 0x95 ↔ insn = .retA) := by
  have other (apart : first.code ≠ 0x05) (apart' : first.code ≠ 0x95) (plain : insn.isJa = false)
      (plain' : insn ≠ .retA) :
      (first.code = 0x05 ↔ insn.isJa = true) ∧ (first.code = 0x95 ↔ insn = .retA) :=
    ⟨⟨fun same => absurd same apart, by simp [plain]⟩,
      ⟨fun same => absurd same apart', fun same => absurd same plain'⟩⟩
  cases insn with
  | ja k | retA =>
      obtain rfl := Option.some.inj head
      simp [exitInsn, Insn.isJa]
  | jmp op src jt jf =>
      have named : first.code = 0xb4 ∨ first.op = op.bits.setWidth 8 ∨
          first.op = op.inverse.setWidth 8 := by
        simp only [convertInsn] at head
        cases large : src.large with
        | true =>
            simp only [large, ↓reduceIte, List.getElem?_cons_zero, Option.some.injEq] at head
            exact Or.inl (by rw [← head]; rfl)
        | false =>
            simp only [large, Bool.false_eq_true, ↓reduceIte] at head
            cases form : jmpForm op jt jf <;> simp only [form, List.getElem?_cons_zero,
              Option.some.injEq] at head <;> rw [← head]
            · exact Or.inr (Or.inl (jump_insn_op src k op _).1)
            · exact Or.inr (Or.inr (jump_insn_op src k op _).2)
            · exact Or.inr (Or.inl (jump_insn_op src k op _).1)
      refine other ?_ ?_ rfl (by simp)
      all_goals
        intro same
        rw [BpfInsn.op, same] at named
        cases op <;> simp [JmpOp.bits, JmpOp.inverse] at named
  | alu op src =>
      refine other ?_ ?_ rfl (by simp) <;> revert head <;> cases op <;> cases src <;>
        simp +contextual [convertInsn, bpfRaw, AluOp.bits, Src.bit, ← eq_comm (a := first)]
  | ldAbs k | ldLen dst | ldImm dst k | ldMem dst k | st src k | neg | tax | txa | retK k =>
      obtain rfl := Option.some.inj head
      refine other ?_ ?_ rfl (by simp) <;> simp [mov32Imm, bpfRaw]

section Group

variable {prog : List Filter} (accepted : Accepted prog) {ebpfs : Nat → BpfInsn}
variable {c : Nat} {pass : Pass} (migrated : Migrated prog pass.ebpfs)
variable (state : AtGroup prog ebpfs c pass)

theorem swallows_next {prog : List Filter} {c : Nat} {insn next : Insn}
    (here : insnAt prog c = some insn) (there : insnAt prog (c + 1) = some next) :
    swallows prog c = (insn.mayEat next && !decide (Targeted prog (c + 1) (c + 1))) := by
  simp [swallows, here, there]

include accepted in
theorem behind {insn : Insn} (here : insnAt prog c = some insn)
    (other : insn ≠ .retA ∧ ∀ k, insn ≠ .retK k) : c + 1 < prog.length := by
  have inside := insn_inside here
  obtain ⟨last, there, ret⟩ := accepted.ends
  rcases Nat.lt_or_ge (c + 1) prog.length with less | final
  · exact less
  · have same : prog.length - 1 = c := by omega
    rw [same, here] at there
    cases there
    rcases ret with rfl | ⟨k, rfl⟩
    · exact absurd rfl other.1
    · exact absurd rfl (other.2 k)

theorem flag_idx_target {prog : List Filter} (accepted : Accepted prog) (t at_ base fold : Nat)
    (inside : t < prog.length) (ahead : at_ < addr prog t) (place : base + fold = at_) :
    flagIdx base (fold + (emitJmp (addr prog) t at_).toInt + 1) = addr prog t := by
  have short := accepted.short
  rw [emit_jmp_int prog t at_ (by omega) ahead, flagIdx]
  omega

def GroupFolds (prog : List Filter) (c : Nat) (pass : Pass) (insn : Insn) : Prop :=
  ∃ folded, foldInsn pass (addr prog c) = .ok (pass.write (addr prog c) folded) ∧
    FoldsTo prog c insn pass.flags folded ∧ folded.2.1 < 32

include migrated in
theorem group_insns (insn : Insn) (here : insnAt prog c = some insn) :
    ∃ f : Filter, f.insn? = some insn ∧ ∀ j, j < insn.groupSize →
      (convertInsn (addr prog) c f.k insn)[j]? = some (pass.ebpfs (addr prog c + j)) := by
  obtain ⟨f, _, decoded, group⟩ := migrated_insn prog pass.ebpfs migrated c insn here
  exact ⟨f, decoded, group⟩

include migrated state

include accepted in
theorem fold_ld_abs (k : Word) (here : insnAt prog c = some (.ldAbs k)) :
    GroupFolds prog c pass (.ldAbs k) := by
  obtain ⟨f, _, group⟩ := group_insns migrated _ here
  obtain ⟨mask, small, _⟩ := accepted_admissible accepted here
  have first := group 0 (group_size_pos _)
  simp only [convertInsn, List.getElem?_cons_zero, Option.some.injEq, Nat.add_zero] at first
  refine ⟨(cbpfStmt 0x20 k, 0, pass.flags), ?_, ?_, by simp⟩
  · rw [foldInsn, ← first]
    simp [-BitVec.toInt_setWidth, BpfInsn.cls, bpfRegCtx, abs_offset k small]
  · exact folds_plain state here (fun _ => rfl) rfl rfl _ rfl rfl

include accepted in
theorem fold_ld_mem (dst : Reg) (k : Word) (here : insnAt prog c = some (.ldMem dst k)) :
    GroupFolds prog c pass (.ldMem dst k) := by
  obtain ⟨f, _, group⟩ := group_insns migrated _ here
  obtain ⟨mask, small, _⟩ := accepted_admissible accepted here
  have first := group 0 (group_size_pos _)
  simp only [convertInsn, List.getElem?_cons_zero, Option.some.injEq, Nat.add_zero] at first
  refine ⟨(cbpfStmt (0x60 ||| dst.ldClass) k, 0, pass.flags), ?_, ?_, by simp⟩
  · rw [foldInsn, ← first]
    cases dst <;> simp [BpfInsn.cls, bpfRegCtx, bpfRegFp, slot_of_frame k small, Reg.ebpf, bpfRegA,
      bpfRegX, Reg.ldClass]
  · exact folds_plain state here (fun _ => rfl) rfl rfl _ (by cases dst <;> rfl) rfl

include accepted in
theorem fold_st (src : Reg) (k : Word) (here : insnAt prog c = some (.st src k)) :
    GroupFolds prog c pass (.st src k) := by
  obtain ⟨f, _, group⟩ := group_insns migrated _ here
  obtain ⟨mask, small⟩ := accepted_admissible accepted here
  have first := group 0 (group_size_pos _)
  simp only [convertInsn, List.getElem?_cons_zero, Option.some.injEq, Nat.add_zero] at first
  refine ⟨(cbpfStmt src.stClass k, 0, pass.flags), ?_, ?_, by simp⟩
  · rw [foldInsn, ← first]
    cases src <;> simp [BpfInsn.cls, slot_of_frame k small, Reg.ebpf, bpfRegA, bpfRegX, Reg.stClass]
  · exact folds_plain state here (fun _ => rfl) rfl rfl _ (by cases src <;> rfl) rfl

theorem fold_ldx_imm (k : Word) (insn : Insn) (here : insnAt prog c = some insn)
    (load : insn = .ldImm .X k ∨ insn = .ldLen .X ∧ k = seccompDataLen) :
    GroupFolds prog c pass insn := by
  obtain ⟨f, _, group⟩ := group_insns migrated _ here
  have first := group 0 (group_size_pos _)
  have value : pass.ebpfs (addr prog c) = mov32Imm bpfRegX k := by
    rcases load with rfl | ⟨rfl, rfl⟩ <;>
    simpa only [convertInsn, List.getElem?_cons_zero, Option.some.injEq, Nat.add_zero, Reg.ebpf,
      eq_comm] using first
  have single : insn.groupSize - 1 = 0 := by rcases load with rfl | ⟨rfl, _⟩ <;> rfl
  refine ⟨(restoreLen 0x01 0x81 (cbpfStmt 0x01 k), insn.groupSize - 1, pass.flags), ?_, ?_,
    by simp [single]⟩
  · simp [foldInsn, aluInsn, aluPlain, value, mov32Imm, BpfInsn.cls, BpfInsn.op, BpfInsn.src,
      bpfRegX, bpfRegA, bpfRegAx, Except.map, single]
  · have never : ∀ next, insn.mayEat next = false := by rcases load with rfl | ⟨rfl, _⟩ <;> intro <;> rfl
    refine folds_plain state here never ?_ ?_ _ ?_ (by rcases load with rfl | ⟨rfl, _⟩ <;> rfl)
    · rcases load with rfl | ⟨rfl, _⟩ <;> rfl
    · rcases load with rfl | ⟨rfl, _⟩ <;> rfl
    · rw [restore_len]
      rcases load with rfl | ⟨rfl, rfl⟩
      · by_cases len : k = seccompDataLen
        · rw [if_pos len, Insn.folded, if_pos len]
          rfl
        · rw [if_neg len, Insn.folded, if_neg len]
          rfl
      · rw [if_pos rfl]
        rfl

theorem fold_alu (op : AluOp) (src : Src) (other : ¬ (op = .div ∧ src = .x))
    (here : insnAt prog c = some (.alu op src)) : GroupFolds prog c pass (.alu op src) := by
  obtain ⟨f, decoded, group⟩ := group_insns migrated _ here
  have single : (Insn.alu op src).groupSize = 1 := by
    cases op <;> cases src <;> first | rfl | exact absurd ⟨rfl, rfl⟩ other
  have value : pass.ebpfs (addr prog c) = bpfRaw (0x04 ||| op.bits ||| src.bit) 0 f.k := by
    have first := group 0 (group_size_pos _)
    rw [Nat.add_zero] at first
    cases op <;> cases src <;> first
      | exact (Option.some.inj first).symm
      | exact absurd ⟨rfl, rfl⟩ other
  refine ⟨(cbpfStmt (0x04 ||| op.bits ||| src.bit) f.k, 0, pass.flags), ?_, ?_, by simp⟩
  · have bit : src.bit = 0x00 ∨ src.bit = 0x08 := by cases src <;> simp [Src.bit]
    rcases bit with bit | bit <;> rw [bit] at value ⊢ <;> cases op <;>
      simp [foldInsn, aluInsn, aluPlain, value, bpfRaw, BpfInsn.cls, BpfInsn.op, BpfInsn.src,
        bpfRegX, bpfRegA, AluOp.bits, Except.map]
  · have plain := folds_plain state here (fun _ => rfl) rfl rfl
      (cbpfStmt (0x04 ||| op.bits ||| src.bit) f.k) (insn_of_alu op src f.k (alu_imm decoded)) rfl
    rwa [single] at plain

theorem fold_div_x (here : insnAt prog c = some (.alu .div .x)) :
    GroupFolds prog c pass (.alu .div .x) := by
  obtain ⟨f, decoded, group⟩ := group_insns migrated _ here
  have mov := group 0 (by decide)
  have test := group 1 (by decide)
  have clear := group 2 (by decide)
  have leave := group 3 (by decide)
  simp only [convertInsn, List.getElem?_cons_zero, List.getElem?_cons_succ, Option.some.injEq,
    Nat.add_zero] at mov test clear leave
  refine ⟨(cbpfStmt 0x3c 0, 4, pass.flags), ?_,
    folds_plain state here (fun _ => rfl) rfl rfl (cbpfStmt 0x3c 0) rfl rfl, by simp⟩
  simp [foldInsn, aluInsn, aluPlain, jmpCheckDivX, divXTest, ← mov, ← test, ← clear, ← leave,
    BpfInsn.cls, BpfInsn.op, BpfInsn.src, bpfRegX, bpfRegA, bpfRegAx, Except.map, exitInsn]

theorem fold_neg (here : insnAt prog c = some .neg) : GroupFolds prog c pass .neg := by
  obtain ⟨f, decoded, group⟩ := group_insns migrated _ here
  have first := group 0 (by decide)
  simp only [convertInsn, List.getElem?_cons_zero, Option.some.injEq, Nat.add_zero] at first
  refine ⟨(cbpfStmt 0x84 f.k, 0, pass.flags), ?_,
    folds_plain state here (fun _ => rfl) rfl rfl (cbpfStmt 0x84 f.k) rfl rfl, by simp⟩
  simp [foldInsn, aluInsn, aluPlain, ← first, bpfRaw, BpfInsn.cls, BpfInsn.op, Except.map]

theorem fold_misc (insn : Insn) (misc : insn = .tax ∨ insn = .txa)
    (here : insnAt prog c = some insn) : GroupFolds prog c pass insn := by
  obtain ⟨f, decoded, group⟩ := group_insns migrated _ here
  have first := group 0 (group_size_pos _)
  rcases misc with rfl | rfl
  all_goals
    simp only [convertInsn, List.getElem?_cons_zero, Option.some.injEq, Nat.add_zero] at first
  · refine ⟨(cbpfStmt 0x07 0, 0, pass.flags), ?_,
      folds_plain state here (fun _ => rfl) rfl rfl (cbpfStmt 0x07 0) rfl rfl, by simp⟩
    simp [foldInsn, aluInsn, aluPlain, ← first, BpfInsn.cls, BpfInsn.op, BpfInsn.src, bpfRegX,
      bpfRegA, bpfRegAx, Except.map]
  · refine ⟨(cbpfStmt 0x87 0, 0, pass.flags), ?_,
      folds_plain state here (fun _ => rfl) rfl rfl (cbpfStmt 0x87 0) rfl rfl, by simp⟩
    simp [foldInsn, aluInsn, aluPlain, ← first, BpfInsn.cls, BpfInsn.op, BpfInsn.src, bpfRegX,
      bpfRegA, bpfRegAx, Except.map]

theorem fold_ret_a (here : insnAt prog c = some .retA) : GroupFolds prog c pass .retA := by
  obtain ⟨f, decoded, group⟩ := group_insns migrated _ here
  have first := group 0 (by decide)
  simp only [convertInsn, List.getElem?_cons_zero, Option.some.injEq, Nat.add_zero] at first
  refine ⟨(cbpfStmt 0x16 0, 0, pass.flags), ?_,
    folds_plain state here (fun _ => rfl) rfl rfl (cbpfStmt 0x16 0) rfl rfl, by simp⟩
  simp [foldInsn, jmpNotCheck, ← first, exitInsn, BpfInsn.cls, BpfInsn.op, Except.map]

include accepted in
theorem fold_ret_k (k : Word) (here : insnAt prog c = some (.retK k)) :
    GroupFolds prog c pass (.retK k) := by
  obtain ⟨f, decoded, group⟩ := group_insns migrated _ here
  have mov := group 0 (group_size_pos _)
  have leave := group 1 (by simp [Insn.groupSize])
  simp only [convertInsn, List.getElem?_cons_zero, List.getElem?_cons_succ, Option.some.injEq,
    Nat.add_zero] at mov leave
  have clear := marked_inner (fun t => targeted_inside accepted) state.marked here 1 (by decide)
    (by simp [Insn.groupSize])
  refine ⟨(cbpfStmt 0x06 k, 1, pass.flags), ?_,
    folds_plain state here (fun _ => rfl) rfl rfl (cbpfStmt 0x06 k) rfl rfl, by simp⟩
  rw [fold_insn_mov_a pass k _ mov.symm, if_pos]
  exact ⟨by rw [← leave]; rfl, by rw [state.ahead _ (Nat.le_refl _)]; exact clear⟩

omit state in
theorem next_code (insn next : Insn) (here : insnAt prog c = some insn)
    (there : insnAt prog (c + 1) = some next) :
    ((pass.ebpfs (addr prog c + insn.groupSize)).code = 0x05 ↔ next.isJa = true) ∧
      ((pass.ebpfs (addr prog c + insn.groupSize)).code = 0x95 ↔ next = .retA) := by
  obtain ⟨f, _, _, group⟩ := migrated_insn prog pass.ebpfs migrated (c + 1) next there
  rw [← addr_next here]
  exact first_code _ _ _ _ _ (group 0 (group_size_pos _))

include accepted in
theorem fold_ld_a (k : Word) (insn : Insn) (here : insnAt prog c = some insn)
    (load : insn = .ldImm .A k ∨ insn = .ldLen .A ∧ k = seccompDataLen) :
    GroupFolds prog c pass insn := by
  obtain ⟨f, _, group⟩ := group_insns migrated _ here
  obtain ⟨next, there⟩ := accepted_insn accepted (behind accepted here
    (by rcases load with rfl | ⟨rfl, _⟩ <;> exact ⟨by simp, by simp⟩))
  have first := group 0 (group_size_pos _)
  have value : pass.ebpfs (addr prog c) = mov32Imm bpfRegA k := by
    rcases load with rfl | ⟨rfl, rfl⟩ <;>
    simpa only [convertInsn, List.getElem?_cons_zero, Option.some.injEq, Nat.add_zero, Reg.ebpf,
      eq_comm] using first
  have size : insn.groupSize = 1 := by rcases load with rfl | ⟨rfl, _⟩ <;> rfl
  have straight : flaggedAt prog c = [] := by
    rcases load with rfl | ⟨rfl, _⟩ <;> simp [flaggedAt, here, Insn.flagged]
  have still (filter : Filter) : insn.isJa = true → filter.jt = 0 ∧ filter.jf = 0 := by
    rcases load with rfl | ⟨rfl, _⟩ <;> simp [Insn.isJa]
  have unfolded : insn.fold = 0 := by rcases load with rfl | ⟨rfl, _⟩ <;> rfl
  have eats : insn.mayEat next = (next == .retA) := by rcases load with rfl | ⟨rfl, _⟩ <;> rfl
  have code := (next_code migrated insn next here there).2
  have marked : Marked prog pass.flags (Targeted prog (c + 1)) := marked_congr state.marked fun t => by
    rw [targeted_succ]
    simp [straight]
  have flag := marked_start accepted marked (c + 1) (insn_inside there)
  have fold (idx : Nat) : (pass.flags idx).fold.toNat =
      if idx = addr prog c then insn.fold else (pass.flags idx).fold.toNat := by
    split
    · next same => simpa [same, unfolded] using state.ahead idx (by omega)
    · rfl
  have swallow := swallows_next here there
  rw [eats] at swallow
  have same : ((pass.ebpfs (addr prog c + 1)).code = 0x95 ∧
      (pass.flags (addr prog c + (pass.flags (addr prog c)).fold.toNat + 1)).targeted = false) ↔
      swallows prog c = true := by
    rw [state.ahead _ (Nat.le_refl _), Nat.add_zero, ← size, code, ← addr_next here, flag, swallow]
    simp
  unfold GroupFolds
  rw [fold_insn_mov_a pass k _ value]
  cases swallowed : swallows prog c with
  | true =>
      have next : next = .retA := by
        rw [swallowed] at swallow
        simp at swallow
        exact swallow.1
      subst next
      rw [if_pos (same.mpr swallowed)]
      refine ⟨_, rfl, ⟨?_, still _, ?_, ?_, fold⟩, by simp⟩
      · rw [swallowed]
        rcases load with rfl | ⟨rfl, rfl⟩ <;> rfl
      · rw [nextGroup, if_pos swallowed, addr_next there, addr_next here, size]
        rfl
      · rw [nextGroup, if_pos swallowed]
        refine marked_congr marked fun t => ?_
        rw [targeted_succ prog (c + 1)]
        simp [flaggedAt, there, Insn.flagged]
  | false =>
      have other : ¬ swallows prog c = true := by simp [swallowed]
      rw [if_neg (same.not.mpr other)]
      refine ⟨_, rfl, ⟨?_, still _, ?_, ?_, fold⟩, by simp⟩
      · rw [swallowed, restore_len]
        rcases load with rfl | ⟨rfl, rfl⟩
        · by_cases len : k = seccompDataLen
          · simp only [len, ↓reduceIte, Insn.folded]
            rfl
          · simp only [len, ↓reduceIte, Insn.folded]
            rfl
        · rw [if_pos rfl]
          rfl
      · rw [nextGroup, if_neg other, addr_next here, size]
        rfl
      · rwa [nextGroup, if_neg other]

include accepted in
theorem fold_ja (k : Word) (here : insnAt prog c = some (.ja k)) :
    GroupFolds prog c pass (.ja k) := by
  obtain ⟨f, decoded, group⟩ := group_insns migrated _ here
  have first := group 0 (group_size_pos _)
  simp only [convertInsn, List.getElem?_cons_zero, Option.some.injEq, Nat.add_zero] at first
  have stays := not_swallows here (fun _ => rfl)
  have next : nextGroup prog c = c + 1 := by simp [nextGroup, stays]
  have inside : c + 1 + k.toNat < prog.length :=
    (flagged_inside accepted (c := c) (by simp [flaggedAt, here, Insn.flagged])).2
  have target : flagIdx (addr prog c)
      ((emitJmp (addr prog) (c + 1 + k.toNat) (addr prog c)).toInt + 1) =
        addr prog (c + 1 + k.toNat) := by
    have short := accepted.short
    rw [emit_jmp_int prog _ _ (by omega) (addr_lt accepted (by omega) (by omega)), flagIdx]
    omega
  refine ⟨(cbpfJmp 0x05 1 0 0, 0, pass.flags.target (addr prog (c + 1 + k.toNat))), ?_, ?_,
    by simp⟩
  · rw [← target]
    simp [foldInsn, jmpNotCheck, ← first, BpfInsn.cls, BpfInsn.op, Except.map]
  · refine ⟨by rw [stays]; rfl, fun _ => ⟨rfl, rfl⟩, by rw [next, addr_next here]; rfl, ?_, ?_⟩
    · rw [next]
      refine marked_congr (marked_target state.marked _ _ rfl) fun t => ?_
      rw [targeted_succ]
      simp [flaggedAt, here, Insn.flagged]
    · intro idx
      rw [target_fold]
      split
      · next same => simpa [same, Insn.fold] using state.ahead idx (by omega)
      · rfl

omit state in
theorem jmp_group (op : JmpOp) (src : Src) (jt jf : BitVec 8)
    (here : insnAt prog c = some (.jmp op src jt jf)) :
    ∃ k, (∀ v, src = .k v → v = k) ∧
      (src.large = true → pass.ebpfs (addr prog c) = mov32Imm bpfRegTmp k) ∧
      let at_ := addr prog c + src.fold
      pass.ebpfs at_ = (match jmpForm op jt jf with
        | .taken | .both => jumpInsn src k op.bits (emitJmp (addr prog) (c + 1 + jt.toNat) at_)
        | .inverted => jumpInsn src k op.inverse (emitJmp (addr prog) (c + 1 + jf.toNat) at_)) ∧
      (jmpForm op jt jf = .both → pass.ebpfs (at_ + 1) =
        ⟨0x05, 0, 0, emitJmp (addr prog) (c + 1 + jf.toNat) (at_ + 1), 0⟩) := by
  obtain ⟨f, decoded, group⟩ := group_insns migrated _ here
  refine ⟨f.k, fun v => jmp_imm decoded v, ?_⟩
  simp only [convertInsn, Insn.groupSize, Src.fold] at group ⊢
  cases large : src.large <;> cases form : jmpForm op jt jf <;>
    simp only [large, form, JmpForm.size, ↓reduceIte, Bool.false_eq_true] at group ⊢
  · have jump := group 0 (by decide)
    exact ⟨by simp, (Option.some.inj jump).symm, by simp⟩
  · have jump := group 0 (by decide)
    exact ⟨by simp, (Option.some.inj jump).symm, by simp⟩
  · have jump := group 0 (by decide)
    have ja := group 1 (by decide)
    exact ⟨by simp, (Option.some.inj jump).symm, fun _ => (Option.some.inj ja).symm⟩
  · have move := group 0 (by decide)
    have jump := group 1 (by decide)
    exact ⟨fun _ => (Option.some.inj move).symm, (Option.some.inj jump).symm, by simp⟩
  · have move := group 0 (by decide)
    have jump := group 1 (by decide)
    exact ⟨fun _ => (Option.some.inj move).symm, (Option.some.inj jump).symm, by simp⟩
  · have move := group 0 (by decide)
    have jump := group 1 (by decide)
    have ja := group 2 (by decide)
    exact ⟨fun _ => (Option.some.inj move).symm, (Option.some.inj jump).symm,
      fun _ => (Option.some.inj ja).symm⟩

omit state in
theorem ja_first (k : Word) (d : Nat) (there : insnAt prog d = some (.ja k)) :
    pass.ebpfs (addr prog d) = ⟨0x05, 0, 0, emitJmp (addr prog) (d + 1 + k.toNat) (addr prog d), 0⟩ := by
  obtain ⟨f, _, _, group⟩ := migrated_insn prog pass.ebpfs migrated d _ there
  exact (Option.some.inj (group 0 (group_size_pos _))).symm

section Jmp

variable {op : JmpOp} {src : Src} {jt jf : BitVec 8}
variable (here : insnAt prog c = some (.jmp op src jt jf))

omit migrated in
/-- The filter a group's jump folds to, once `jmp_insn` has said what it ate and
which flags it set. -/
theorem jmp_folds {k : Word} {filter : Filter} {ate : Nat} {flags : Flags}
    (start : foldInsn pass (addr prog c) =
      (jmpNotCheck pass.ebpfs (addr prog c + src.fold) (largeK src k) src.fold
        (jmpFlags pass.flags (addr prog c) src) (addr prog c)).map (pass.write (addr prog c)))
    (done : jmpNotCheck pass.ebpfs (addr prog c + src.fold) (largeK src k) src.fold
      (jmpFlags pass.flags (addr prog c) src) (addr prog c) = .ok (filter, ate, flags))
    (meaning : filter.insn? = some ((Insn.jmp op src jt jf).folded (swallows prog c)))
    (width : addr prog c + ate + 1 = addr prog (nextGroup prog c))
    (marked : Marked prog flags (Targeted prog (nextGroup prog c)))
    (fold : ∀ idx, (flags idx).fold = (jmpFlags pass.flags (addr prog c) src idx).fold)
    (small : ate < 32) : GroupFolds prog c pass (.jmp op src jt jf) := by
  refine ⟨(filter, ate, flags), by rw [start, done]; rfl, ⟨meaning, nofun, width, marked, ?_⟩, small⟩
  intro idx
  rw [fold idx]
  exact jmp_flags_fold pass.flags (addr prog c) src (state.ahead _ (Nat.le_refl _)) idx

include here

include accepted

theorem fold_jmp_inverted (form : jmpForm op jt jf = .inverted) :
    GroupFolds prog c pass (.jmp op src jt jf) := by
  obtain ⟨k, imm, move, jump, _⟩ := jmp_group migrated op src jt jf here
  obtain ⟨mask, _, falseIn⟩ := accepted_admissible accepted here
  obtain ⟨falls, _, inverse⟩ := jmp_form_inverted op jt jf form
  simp only [form] at jump
  have stays : swallows prog c = false := not_swallows here fun next => by
    rw [Insn.mayEat, beq_false_of_ne falls]
    rfl
  have following : nextGroup prog c = c + 1 := by simp [nextGroup, stays]
  have width := addr_next here
  simp only [Insn.groupSize, form, JmpForm.size] at width
  have ahead : addr prog c + src.fold < addr prog (c + 1 + jf.toNat) := by
    have later := addr_mono prog (show c + 1 ≤ c + 1 + jf.toNat by omega)
    omega
  have own := jmp_flags_fold pass.flags (addr prog c) src (state.ahead _ (Nat.le_refl _))
    (addr prog c)
  rw [if_pos rfl] at own
  have done := jmp_inverted pass.ebpfs _ src.fold (addr prog c)
    (jmpFlags pass.flags (addr prog c) src) op src k _ imm inverse jump
  rw [own, flag_idx_target accepted _ _ _ _ (by omega) ahead rfl] at done
  refine jmp_folds state (fold_insn_jmp pass _ src k _ move jump (jump_insn_class src k op _).2)
    done ?_ ?_ ?_ (fun idx => target_fold _ _ idx) ?_
  · simpa [Insn.folded, form] using insn_of_jmp op src k 0 1 imm
  · rw [following]
    omega
  · rw [following]
    refine marked_congr (marked_target (jmp_flags_marked state.marked src) _ _ rfl) fun t => ?_
    rw [targeted_succ]
    simp [flaggedAt, here, Insn.flagged, form]
  · have fold := src_fold_le src
    omega

theorem fold_jmp_both (form : jmpForm op jt jf = .both) :
    GroupFolds prog c pass (.jmp op src jt jf) := by
  obtain ⟨k, imm, move, jump, ja⟩ := jmp_group migrated op src jt jf here
  obtain ⟨mask, trueIn, falseIn⟩ := accepted_admissible accepted here
  have falls := jmp_form_both op jt jf form
  have ja := ja form
  simp only [form] at jump
  have stays : swallows prog c = false := not_swallows here fun next => by
    rw [Insn.mayEat, beq_false_of_ne falls]
    rfl
  have following : nextGroup prog c = c + 1 := by simp [nextGroup, stays]
  have size : (Insn.jmp op src jt jf).groupSize = src.fold + 2 := by
    simp [Insn.groupSize, form, JmpForm.size]
  have width := addr_next here
  have beyond (d : Nat) : addr prog c + src.fold + 2 ≤ addr prog (c + 1 + d) := by
    have later := addr_mono prog (show c + 1 ≤ c + 1 + d by omega)
    omega
  have trueAhead := beyond jt.toNat
  have falseAhead := beyond jf.toNat
  have own := jmp_flags_fold pass.flags (addr prog c) src (state.ahead _ (Nat.le_refl _))
    (addr prog c)
  rw [if_pos rfl] at own
  have done := jmp_taken pass.ebpfs _ src.fold (addr prog c)
    (jmpFlags pass.flags (addr prog c) src) op src k _ imm jump
  simp only [target_fold, own] at done
  rw [flag_idx_target accepted _ _ _ _ (by omega) (by omega) rfl] at done
  have marked := marked_target (jmp_flags_marked (i := addr prog c) state.marked src)
    (addr prog (c + 1 + jt.toNat)) _ rfl
  -- the JA belongs to this very group, so no jump goes to it
  have clear := marked_inner (by
      rintro t (goal | rfl)
      · exact targeted_inside accepted goal
      · omega)
    marked here (src.fold + 1) (by omega) (by omega)
  rw [if_pos ⟨by rw [ja], clear⟩, ja] at done
  have target := flag_idx_target accepted (c + 1 + jf.toNat) (addr prog c + src.fold + 1)
    (addr prog c + src.fold + 1) 0 (by omega) (by omega) rfl
  rw [Int.natCast_zero, Int.zero_add] at target
  rw [target] at done
  refine jmp_folds state (fold_insn_jmp pass _ src k _ move jump (jump_insn_class src k op _).1)
    done ?_ ?_ ?_ (fun idx => by rw [target_fold, target_fold]) ?_
  · simpa [Insn.folded, form] using insn_of_jmp op src k 1 1 imm
  · rw [following]
    omega
  · rw [following]
    refine marked_congr (marked_target marked _ _ rfl) fun t => ?_
    rw [targeted_succ]
    simp [flaggedAt, here, Insn.flagged, form, or_assoc]
  · have fold := src_fold_le src
    omega

theorem fold_jmp_taken (form : jmpForm op jt jf = .taken) :
    GroupFolds prog c pass (.jmp op src jt jf) := by
  obtain ⟨k, imm, move, jump, _⟩ := jmp_group migrated op src jt jf here
  obtain ⟨mask, trueIn, falseIn⟩ := accepted_admissible accepted here
  have falls := (jmp_form_taken op jt jf).mp form
  simp only [form] at jump
  obtain ⟨next, there⟩ := accepted_insn accepted (show c + 1 < prog.length by omega)
  have size : (Insn.jmp op src jt jf).groupSize = src.fold + 1 := by
    simp [Insn.groupSize, form, JmpForm.size]
  have width := addr_next here
  have ahead : addr prog c + src.fold < addr prog (c + 1 + jt.toNat) := by
    have later := addr_mono prog (show c + 1 ≤ c + 1 + jt.toNat by omega)
    omega
  have own := jmp_flags_fold pass.flags (addr prog c) src (state.ahead _ (Nat.le_refl _))
    (addr prog c)
  rw [if_pos rfl] at own
  have done := jmp_taken pass.ebpfs _ src.fold (addr prog c)
    (jmpFlags pass.flags (addr prog c) src) op src k _ imm jump
  simp only [target_fold, own] at done
  rw [flag_idx_target accepted _ _ _ _ (by omega) ahead rfl] at done
  have marked : Marked prog ((jmpFlags pass.flags (addr prog c) src).target
      (addr prog (c + 1 + jt.toNat))) (Targeted prog (c + 1)) := by
    refine marked_congr (marked_target (jmp_flags_marked state.marked src) _ _ rfl) fun t => ?_
    rw [targeted_succ]
    simp [flaggedAt, here, Insn.flagged, form]
  have flag := marked_start accepted marked (c + 1) (by omega)
  have code := (next_code migrated _ next here there).1
  have swallow := swallows_next here there
  rw [show (Insn.jmp op src jt jf).mayEat next = next.isJa by simp [Insn.mayEat, falls]] at swallow
  have place : addr prog c + src.fold + 1 = addr prog (c + 1) := by omega
  rw [size, ← Nat.add_assoc] at code
  rw [place] at done code
  have fold := src_fold_le src
  -- the JA behind the jump is folded into it unless something else jumps there
  cases swallowed : swallows prog c with
  | true =>
      rw [swallowed, eq_comm, Bool.and_eq_true] at swallow
      obtain ⟨isJa, untouched⟩ := swallow
      rw [if_pos ⟨code.mpr isJa, by simpa [flag] using untouched⟩] at done
      obtain ⟨k', rfl⟩ : ∃ k', next = .ja k' := by
        cases next <;> first | exact ⟨_, rfl⟩ | simp [Insn.isJa] at isJa
      have following : nextGroup prog c = c + 2 := by simp [nextGroup, swallowed]
      have inside := (flagged_inside accepted (c := c + 1) (t := c + 1 + 1 + k'.toNat)
        (by simp [flaggedAt, there, Insn.flagged])).2
      have first := ja_first migrated k' (c + 1) there
      have target := flag_idx_target accepted (c + 1 + 1 + k'.toNat) (addr prog (c + 1))
        (addr prog (c + 1)) 0 inside (addr_lt accepted (by omega) (by omega)) rfl
      rw [Int.natCast_zero, Int.zero_add] at target
      rw [first, target] at done
      refine jmp_folds state
        (fold_insn_jmp pass _ src k _ move jump (jump_insn_class src k op _).1) done ?_ ?_ ?_
        (fun idx => by rw [target_fold, target_fold]) (by omega)
      · simpa [Insn.folded, form, swallowed] using insn_of_jmp op src k 1 1 imm
      · rw [following, addr_next there]
        simp only [Insn.groupSize]
        omega
      · rw [following]
        refine marked_congr (marked_target marked _ _ rfl) fun t => ?_
        rw [targeted_succ prog (c + 1)]
        simp [flaggedAt, there, Insn.flagged]
  | false =>
      have following : nextGroup prog c = c + 1 := by simp [nextGroup, swallowed]
      rw [if_neg] at done
      · refine jmp_folds state
          (fold_insn_jmp pass _ src k _ move jump (jump_insn_class src k op _).1) done ?_ ?_ ?_
          (fun idx => by rw [target_fold]) (by omega)
        · simpa [Insn.folded, form, swallowed] using insn_of_jmp op src k 1 0 imm
        · rw [following]
          omega
        · rwa [following]
      · rw [code, flag]
        intro both
        rw [swallowed] at swallow
        simp [both.1, both.2] at swallow

end Jmp

include accepted in
theorem fold_group (insn : Insn) (here : insnAt prog c = some insn) :
    GroupFolds prog c pass insn := by
  cases insn with
  | ldAbs k => exact fold_ld_abs accepted migrated state k here
  | ldLen dst =>
      cases dst with
      | A => exact fold_ld_a accepted migrated state _ _ here (Or.inr ⟨rfl, rfl⟩)
      | X => exact fold_ldx_imm migrated state _ _ here (Or.inr ⟨rfl, rfl⟩)
  | ldImm dst k =>
      cases dst with
      | A => exact fold_ld_a accepted migrated state k _ here (Or.inl rfl)
      | X => exact fold_ldx_imm migrated state k _ here (Or.inl rfl)
  | ldMem dst k => exact fold_ld_mem accepted migrated state dst k here
  | st src k => exact fold_st accepted migrated state src k here
  | alu op src =>
      by_cases div : op = .div ∧ src = .x
      · obtain ⟨rfl, rfl⟩ := div
        exact fold_div_x migrated state here
      · exact fold_alu migrated state op src div here
  | neg => exact fold_neg migrated state here
  | tax => exact fold_misc migrated state _ (Or.inl rfl) here
  | txa => exact fold_misc migrated state _ (Or.inr rfl) here
  | ja k => exact fold_ja accepted migrated state k here
  | jmp op src jt jf =>
      cases form : jmpForm op jt jf with
      | taken => exact fold_jmp_taken accepted migrated state here form
      | inverted => exact fold_jmp_inverted accepted migrated state here form
      | both => exact fold_jmp_both accepted migrated state here form
  | retA => exact fold_ret_a migrated state here
  | retK k => exact fold_ret_k accepted migrated state k here

end Group

theorem eaten_cases {prog : List Filter} {c : Nat} (eats : eaten prog (c + 1) = true) :
    ∃ insn next, insnAt prog c = some insn ∧ insnAt prog (c + 1) = some next ∧
      insn.mayEat next = true ∧ ¬ Targeted prog (c + 1) (c + 1) := by
  simp only [eaten, swallows] at eats
  split at eats
  · next insn next here there =>
      simp only [Bool.and_eq_true, Bool.not_eq_true', decide_eq_false_iff_not] at eats
      exact ⟨insn, next, here, there, eats⟩
  · cases eats

theorem eaten_not_swallows {prog : List Filter} {c : Nat} (eats : eaten prog c = true) :
    swallows prog c = false := by
  cases c with
  | zero => cases eats
  | succ c =>
      obtain ⟨insn, next, _, there, may, _⟩ := eaten_cases eats
      refine not_swallows there fun other => ?_
      cases insn <;> simp only [Insn.mayEat, Bool.and_eq_true, beq_iff_eq, Bool.false_eq_true] at may
      case jmp =>
        cases next <;> simp only [Insn.isJa, Bool.false_eq_true, and_false] at may
        rfl
      all_goals
        rw [may.2]
        rfl

theorem next_group_kept (prog : List Filter) (c : Nat) :
    eaten prog (nextGroup prog c) = false := by
  unfold nextGroup
  cases swallow : swallows prog c with
  | true =>
      simp only [↓reduceIte, eaten]
      exact eaten_not_swallows (c := c + 1) swallow
  | false => simpa [eaten] using swallow

theorem first_pass_from {prog : List Filter} (accepted : Accepted prog) {ebpfs : Nat → BpfInsn}
    (migrated : Migrated prog ebpfs) (rounds c : Nat) (pass : Pass)
    (state : AtGroup prog ebpfs c pass) (kept : eaten prog c = false) (inside : c ≤ prog.length)
    (enough : addr prog prog.length ≤ addr prog c + rounds) :
    ∃ done, firstPass (addr prog prog.length) rounds (addr prog c) pass = .ok done ∧
      AtGroup prog ebpfs prog.length done := by
  induction rounds generalizing c pass with
  | zero =>
      have final : c = prog.length := by
        rcases Nat.lt_or_ge c prog.length with less | same
        · have := addr_lt accepted less (Nat.le_refl _)
          omega
        · omega
      exact ⟨pass, rfl, final ▸ state⟩
  | succ rounds ih =>
      rw [firstPass]
      rcases Nat.lt_or_ge c prog.length with less | same
      · have below := addr_lt accepted less (Nat.le_refl _)
        obtain ⟨insn, here⟩ := accepted_insn accepted less
        obtain ⟨folded, step, done, small⟩ := fold_group accepted (state.code ▸ migrated) state insn here
        have again := at_group_write accepted state kept here done small
        have width := done.ate
        have next := ih (nextGroup prog c) _ again (next_group_kept prog c) (next_group_le less)
          (by omega)
        rw [if_pos below, step]
        simpa [Pass.write, width] using next
      · obtain rfl : c = prog.length := by omega
        exact ⟨pass, by rw [if_neg (Nat.lt_irrefl _)], state⟩

theorem prologue_deleted (idx : Nat) :
    Bitmap.has (Function.update (fun _ => 0) 0 7) idx = true ↔ idx < skip := by
  unfold Bitmap.has u32Bits
  have bound : idx % 32 < 32 := Nat.mod_lt _ (by decide)
  by_cases word : idx / 32 = 0
  · rw [word, Function.update_self, show (7 : BitVec 32) = lowMask 3 from rfl,
      low_mask_bit 3 _ (by decide) bound, decide_eq_true_iff, skip]
    omega
  · rw [Function.update_of_ne word]
    simp only [skip, BitVec.ofNat_eq_ofNat, BitVec.getLsbD_zero, Bool.false_eq_true, false_iff]
    omega

theorem fold_all_migrated {prog : List Filter} (accepted : Accepted prog) {ebpfs : Nat → BpfInsn}
    (migrated : Migrated prog ebpfs) (buf : Nat → Filter) (no : Nat) :
    ∃ done, foldAll ebpfs (addr prog prog.length) buf no = .ok done ∧
      AtGroup prog ebpfs prog.length done := by
  have xorA := Option.some.inj (migrated_prologue prog ebpfs migrated 0 (by decide))
  have xorX := Option.some.inj (migrated_prologue prog ebpfs migrated 1 (by decide))
  have movCtx := Option.some.inj (migrated_prologue prog ebpfs migrated 2 (by decide))
  have start : AtGroup prog ebpfs 0
      ⟨ebpfs, fun _ => ⟨0, false⟩, Function.update (fun _ => 0) 0 7, buf⟩ := by
    refine ⟨rfl, ?_, fun _ _ => rfl, nofun, ?_, nofun, nofun⟩
    · intro idx
      constructor
      · nofun
      · rintro ⟨t, ⟨c, less, _⟩, _⟩
        omega
    · intro idx
      rw [prologue_deleted]
      exact ⟨fun below => ⟨below, nofun⟩, fun both => both.1⟩
  have passed := first_pass_from accepted migrated (addr prog prog.length) 0 _ start rfl
    (Nat.zero_le _) (by omega)
  rw [foldAll, ← xorA, ← xorX, ← movCtx]
  exact passed

end Ceccomp
