import Ceccomp.Ebpf.Unblinding

/-!
The first loop over blinded code and over the code before blinding, round by
round: both stand at the same instruction, with the same flags at group starts
and the same filters kept.
-/

namespace Ceccomp

theorem code_parts (insn : BpfInsn) : insn.code = insn.cls ||| insn.op ||| insn.src := by
  have parts : ∀ code : BitVec 8, code = code &&& 0x07#8 ||| code &&& 0xf0#8 ||| code &&& 0x08#8 := by
    decide
  exact parts insn.code

theorem src_bit_cases (insn : BpfInsn) : insn.src = 0 ∨ insn.src = 0x08 := by
  have bit : ∀ code : BitVec 8, code &&& 0x08#8 = 0 ∨ code &&& 0x08#8 = 0x08 := by decide
  exact bit insn.code

theorem clear_src (code : BitVec 8) (imm : code &&& 0x08#8 = 0) :
    (code ||| 0x08) &&& ~~~0x08#8 = code := by
  have cleared : ∀ code : BitVec 8, code &&& 0x08#8 = 0 → (code ||| 0x08) &&& ~~~0x08#8 = code := by
    decide
  exact cleared code imm

/-- What memory holds once `alu_insn` has put the instruction back in place. -/
structure Restores (low : Nat) (before after : Nat → BpfInsn) : Prop where
  ahead : ∀ j, low ≤ j → after j = before j
  off : ∀ j, (after j).off = (before j).off

theorem restores_refl (low : Nat) (mem : Nat → BpfInsn) : Restores low mem mem :=
  ⟨fun _ _ => rfl, fun _ => rfl⟩

theorem restores_update (low i : Nat) (mem : Nat → BpfInsn) (insn : BpfInsn) (below : i < low)
    (off : insn.off = (mem i).off) : Restores low mem (Function.update mem i insn) := by
  constructor
  · intro j above
    rw [Function.update_of_ne (by omega)]
  · intro j
    by_cases same : j = i
    · subst same
      rw [Function.update_self, off]
    · rw [Function.update_of_ne same]

theorem map_ok {Value Other : Type} (f : Value → Other) (result : Except String Value) (b : Other)
    (done : result.map f = .ok b) : ∃ a, result = .ok a ∧ f a = b := by
  cases result with
  | error err => cases done
  | ok a => exact ⟨a, rfl, Except.ok.inj done⟩

section Alu

variable {choice : Nat → Blinding} {ebpfs blinded : Nat → BpfInsn} {len : Nat}
variable (tidy : Tidy ebpfs len) (blinds : Blinds choice ebpfs len blinded)
variable (fits : blindAddr choice len ≤ 0x8000)
variable {mem mem' : Nat → BpfInsn} {flags flags' : Flags} {i : Nat} (inside : i < len)
variable (ahead : ∀ j, i ≤ j → mem j = ebpfs j)
variable (ahead' : ∀ k, blindAddr choice i ≤ k → mem' k = blinded k)
variable (fold : (flags i).fold.toNat = 0) (fold' : (flags' (blindAddr choice i)).fold.toNat = 0)
variable (alike : FlagsAlike choice len flags flags')

include blinds inside ahead' in
theorem split_restored {rnd : Word} (split : choice i = .split rnd) :
    ∃ after : Nat → BpfInsn,
      after (blindAddr choice i + 2) =
          { ebpfs i with off := adjustedOff choice (ebpfs i) i, srcReg := 0 } ∧
        aluInsn mem' (blindAddr choice i) flags' =
          (aluPlain after (blindAddr choice i + 2) 2 (flags'.addFold (blindAddr choice i) 2)
            (blindAddr choice i)).map (·, after) ∧
        Restores (blindAddr choice (i + 1)) mem' after := by
  obtain ⟨first, second, third⟩ := blinds_split blinds inside split
  rw [← ahead' _ (Nat.le_refl _)] at first
  rw [← ahead' _ (by omega)] at second
  rw [← ahead' _ (by omega)] at third
  have permits := blinds.permits i inside
  rw [split] at permits
  have imm : (ebpfs i).src = 0 := by
    simp only [BpfInsn.Permits, BpfInsn.blindable, Bool.and_eq_true, beq_iff_eq] at permits
    exact permits.1
  have moves : (mem' (blindAddr choice i)).op = 0xb0 := by
    rw [first, BpfInsn.op]
    dsimp only
    split <;> decide
  have toAx : (mem' (blindAddr choice i)).dstReg = bpfRegAx := by rw [first]
  have same : ({ mem' (blindAddr choice i + 2) with
      imm := (mem' (blindAddr choice i)).imm ^^^ (mem' (blindAddr choice i + 1)).imm
      code := (mem' (blindAddr choice i + 2)).code &&& ~~~0x08#8
      srcReg := 0 } : BpfInsn) =
      { ebpfs i with off := adjustedOff choice (ebpfs i) i, srcReg := 0 } := by
    rw [first, second, third]
    dsimp only
    rw [clear_src _ imm, BitVec.xor_comm rnd, BitVec.xor_assoc, BitVec.xor_self, BitVec.xor_zero]
  refine ⟨Function.update mem' (blindAddr choice i + 2) _, Function.update_self .., ?_, ?_⟩
  · rw [aluInsn]
    dsimp only
    rw [if_pos ⟨moves, toAx⟩, same]
  · refine restores_update _ _ _ _ ?_ ?_
    · rw [blind_addr_succ, split, Blinding.size]
      omega
    · rw [third]

include fold fold' alike in
theorem standing_here (n : BitVec 3) (ate : Nat) (count : n.toNat = ate)
    (size : (choice i).size = ate + 1) :
    Standing choice len flags (flags'.addFold (blindAddr choice i) n) i 0 (blindAddr choice i)
      ate := by
  refine ⟨fold, ?_, ?_, ?_⟩
  · have grown := add_fold flags' (blindAddr choice i) 0 n fold' (by omega)
    rwa [Nat.zero_add, count] at grown
  · rw [Nat.add_zero, blind_addr_succ, size]
    omega
  · intro j below
    rw [add_fold_targeted]
    exact alike j below

include blinds inside in
theorem blinded_alu_class (cls : (ebpfs i).cls = 0x04 ∨ (ebpfs i).cls = 0x07) :
    (blinded (blindAddr choice i)).cls = 0x04 ∨ (blinded (blindAddr choice i)).cls = 0x07 := by
  cases blinding : choice i with
  | kept =>
      rw [blinds_kept blinds inside blinding]
      exact cls
  | cleared =>
      rw [blinds_cleared blinds inside blinding]
      exact Or.inr (by simp [BpfInsn.cls])
  | split rnd =>
      rw [(blinds_split blinds inside blinding).1]
      split
      · left
        simp [BpfInsn.cls]
      · right
        simp [BpfInsn.cls]

theorem add_fold_zero (flags : Flags) (w : Nat) : flags.addFold w 0 = flags := by
  funext idx
  by_cases same : idx = w
  · subst same
    simp [Flags.addFold]
  · simp [Flags.addFold, same]

theorem folded_alike_raised {folded folded' : Folded} {w w' : Nat} {n : BitVec 3}
    (same : FoldedAlike choice ebpfs len flags (flags'.addFold w' n) w w' folded folded') :
    FoldedAlike choice ebpfs len flags flags' w w' folded folded' :=
  ⟨same.filter, same.width, same.alike, same.folds, fun idx other => by
    rw [same.folds' idx other, add_fold_other _ _ _ _ other], same.jump, same.small, same.room⟩

include tidy blinds fits inside fold fold' alike

theorem translated_alike (cls : (ebpfs i).cls = 0x04 ∨ (ebpfs i).cls = 0x07) (folded : Folded)
    (cur cur' : BpfInsn) (n : BitVec 3) (ate : Nat) (count : n.toNat = ate)
    (size : (choice i).size = ate + 1) (small : ate ≤ 2) (memU memB : Nat → BpfInsn)
    (first : memU i = cur) (first' : memB (blindAddr choice i + ate) = cur')
    (aheadU : ∀ j, i + 1 ≤ j → memU j = ebpfs j)
    (aheadB : ∀ k, blindAddr choice (i + 1) ≤ k → memB k = blinded k)
    (curCls : cur.cls = 0x04 ∨ cur.cls = 0x07) (code : cur'.code = cur.code)
    (imm : cur'.imm = cur.imm) (dst : cur'.dstReg = cur.dstReg)
    (src : cur.op = 0xb0 → cur'.srcReg = cur.srcReg)
    (own : cur = ebpfs i ∨ cur.dstReg = bpfRegA ∧ cur.srcReg = 0 ∨
      cur.dstReg = bpfRegX ∧ cur.srcReg = 0)
    (plain : aluPlain memU i 0 flags i = .ok folded) :
    ∃ folded', aluPlain memB (blindAddr choice i + ate) ate
        (flags'.addFold (blindAddr choice i) n) (blindAddr choice i) = .ok folded' ∧
      FoldedAlike choice ebpfs len flags flags' i (blindAddr choice i) folded folded' := by
  have behind : i + 1 < len := behind_inside tidy inside fun code => by
    rw [BpfInsn.cls, code] at cls
    exact absurd cls (by decide)
  have standing := standing_here fold fold' alike n ate count size
  have next := blind_addr_succ choice i
  have compares (move : cur.op = 0xb0) (toTmp : cur.dstReg = bpfRegTmp) :
      (ebpfs (i + 1)).src = 0x08 ∧ (ebpfs (i + 1)).op ≠ 0x00 ∧ (ebpfs (i + 1)).op ≠ 0x90 := by
    rcases own with rfl | ⟨toA, _⟩ | ⟨toX, _⟩
    · obtain ⟨_, moved, notTmp⟩ := tidy.move i inside cls move
      rcases src_bit_cases (ebpfs i) with bit | bit
      · exact tidy.compare i inside (moved bit).1 toTmp
      · exact absurd toTmp (notTmp (by rw [bit]; decide))
    · rw [toA] at toTmp
      exact absurd toTmp (by decide)
    · rw [toX] at toTmp
      exact absurd toTmp (by decide)
  have divides (move : cur.op = 0xb0) (toX : cur.dstReg = bpfRegX) (fromX : cur.srcReg = bpfRegX)
      (other : ¬ (cur.cls = 0x07 ∧ cur.src = 0x08)) :
      i + 4 < len ∧ (ebpfs (i + 1)).code = 0x55 ∧ (ebpfs (i + 2)).code = 0xac ∧
        (ebpfs (i + 3)).code = 0x95 ∧ (ebpfs (i + 4)).src = 0x08 := by
    have nonzero : cur.srcReg ≠ 0 := by
      rw [fromX]
      decide
    rcases own with rfl | ⟨_, zero⟩ | ⟨_, zero⟩
    · obtain ⟨_, moved, _⟩ := tidy.move i inside cls move
      rcases src_bit_cases (ebpfs i) with bit | bit
      · exact absurd (moved bit).2 nonzero
      · have four : (ebpfs i).cls = 0x04 :=
          cls.resolve_right fun seven => other ⟨seven, bit⟩
        refine tidy.divide i inside ?_ toX fromX
        rw [code_parts, four, move, bit]
        rfl
    · exact absurd zero nonzero
    · exact absurd zero nonzero
  subst first first'
  obtain ⟨folded', done', same⟩ := @plain_alike choice ebpfs blinded len tidy blinds fits memU
    memB flags _ i (blindAddr choice i) ate standing aheadU
    (fun k above => aheadB k (by omega)) behind small curCls code imm dst src
    (fun move toTmp _ => compares move toTmp) divides folded plain
  exact ⟨folded', done', folded_alike_raised same⟩

include ahead ahead'

theorem xor_alike (cls : (ebpfs i).cls = 0x04 ∨ (ebpfs i).cls = 0x07)
    (xors : (ebpfs i).op = 0xa0 ∧ (ebpfs i).src = 0x08 ∧ (ebpfs i).srcReg = (ebpfs i).dstReg)
    (folded : Folded)
    (plain : aluPlain (Function.update mem i { ebpfs i with srcReg := 0, code := 0xb4 }) i 0 flags i =
      .ok folded) :
    ∃ folded' after', aluInsn mem' (blindAddr choice i) flags' = .ok (folded', after') ∧
      FoldedAlike choice ebpfs len flags flags' i (blindAddr choice i) folded folded' ∧
      Restores (blindAddr choice (i + 1)) mem' after' := by
  have lower := blind_addr_succ choice i
  obtain ⟨first, _⟩ := blinds_plain blinds inside (unblindable_src xors.2.1)
  have kept := permits_kept (blinds.permits i inside) (unblindable_src xors.2.1)
  rw [← ahead' _ (Nat.le_refl _)] at first
  obtain ⟨folded', done', alike'⟩ := translated_alike tidy blinds fits inside fold fold' alike cls folded
    { ebpfs i with srcReg := 0, code := 0xb4 }
    { mem' (blindAddr choice i) with srcReg := 0, code := 0xb4 } 0 0 rfl (by rw [kept]; rfl)
    (by decide) _ (Function.update mem' (blindAddr choice i)
      { mem' (blindAddr choice i) with srcReg := 0, code := 0xb4 })
    (Function.update_self ..) (by simp)
    (fun j above => by rw [Function.update_of_ne (by omega)]; exact ahead j (by omega))
    (fun k above => by
      rw [kept, Blinding.size] at lower
      rw [Function.update_of_ne (by omega)]
      exact ahead' k (by omega))
    (Or.inl (by simp [BpfInsn.cls])) rfl (by rw [first]) (by rw [first]) (fun _ => rfl)
    (Or.inr ((tidy.clear i inside cls xors.1 xors.2.1 xors.2.2).imp (fun a => ⟨a, rfl⟩)
      fun x => ⟨x, rfl⟩)) plain
  refine ⟨folded', Function.update mem' (blindAddr choice i)
      { mem' (blindAddr choice i) with srcReg := 0, code := 0xb4 }, ?_, alike',
    restores_update _ _ _ _ (blind_addr_lt choice (Nat.lt_succ_self i)) rfl⟩
  rw [add_fold_zero, Nat.add_zero] at done'
  have noAx : ¬ ((mem' (blindAddr choice i)).op = 0xb0 ∧
      (mem' (blindAddr choice i)).dstReg = bpfRegAx) := by
    rw [first]
    exact fun both => (tidy.move i inside cls both.1).1 both.2
  have xors' : (mem' (blindAddr choice i)).op = 0xa0 ∧ (mem' (blindAddr choice i)).src = 0x08 ∧
      (mem' (blindAddr choice i)).srcReg = (mem' (blindAddr choice i)).dstReg := by
    rw [first]
    exact xors
  rw [aluInsn]
  dsimp only
  rw [if_neg noAx, if_pos xors', done']
  rfl

section Choices

variable (cls : (ebpfs i).cls = 0x04 ∨ (ebpfs i).cls = 0x07)
variable (folded : Folded) (plain : aluPlain mem i 0 flags i = .ok folded)

include cls plain

theorem kept_alu_alike (blinding : choice i = .kept)
    (noXor : ¬ ((ebpfs i).op = 0xa0 ∧ (ebpfs i).src = 0x08 ∧ (ebpfs i).srcReg = (ebpfs i).dstReg)) :
    ∃ folded' after', aluInsn mem' (blindAddr choice i) flags' = .ok (folded', after') ∧
      FoldedAlike choice ebpfs len flags flags' i (blindAddr choice i) folded folded' ∧
      Restores (blindAddr choice (i + 1)) mem' after' := by
  have first := blinds_kept blinds inside blinding
  have lower := blind_addr_succ choice i
  rw [← ahead' _ (Nat.le_refl _)] at first
  obtain ⟨folded', done', alike'⟩ := translated_alike tidy blinds fits inside fold fold' alike cls folded
    (ebpfs i) _ 0 0 rfl (by rw [blinding]; rfl) (by decide) mem mem' (ahead i (Nat.le_refl _)) first
    (fun j above => ahead j (by omega)) (fun k above => ahead' k (by omega)) cls rfl rfl rfl
    (fun _ => rfl) (Or.inl rfl) plain
  refine ⟨folded', mem', ?_, alike', restores_refl _ _⟩
  rw [add_fold_zero, Nat.add_zero] at done'
  have noAx : ¬ ((mem' (blindAddr choice i)).op = 0xb0 ∧
      (mem' (blindAddr choice i)).dstReg = bpfRegAx) := by
    rw [first]
    exact fun both => (tidy.move i inside cls both.1).1 both.2
  have noXor' : ¬ ((mem' (blindAddr choice i)).op = 0xa0 ∧ (mem' (blindAddr choice i)).src = 0x08 ∧
      (mem' (blindAddr choice i)).srcReg = (mem' (blindAddr choice i)).dstReg) := by
    rw [first]
    exact noXor
  rw [aluInsn]
  dsimp only
  rw [if_neg noAx, if_neg noXor', done']
  rfl

theorem cleared_alu_alike (blinding : choice i = .cleared) :
    ∃ folded' after', aluInsn mem' (blindAddr choice i) flags' = .ok (folded', after') ∧
      FoldedAlike choice ebpfs len flags flags' i (blindAddr choice i) folded folded' ∧
      Restores (blindAddr choice (i + 1)) mem' after' := by
  have permits := blinds.permits i inside
  have first := blinds_cleared blinds inside blinding
  have lower := blind_addr_succ choice i
  rw [blinding] at permits
  rw [← ahead' _ (Nat.le_refl _)] at first
  obtain ⟨code, zero⟩ := permits
  have move : (ebpfs i).op = 0xb0 ∧ (ebpfs i).src = 0 := by
    rcases code with code | code <;> simp [BpfInsn.op, BpfInsn.src, code]
  obtain ⟨code, src⟩ := (tidy.move i inside cls move.1).2.1 move.2
  obtain ⟨folded', done', alike'⟩ := translated_alike tidy blinds fits inside fold fold' alike cls folded
    (ebpfs i) { mem' (blindAddr choice i) with srcReg := 0, code := 0xb4 } 0 0 rfl
    (by rw [blinding]; rfl) (by decide) mem (Function.update mem' (blindAddr choice i)
      { mem' (blindAddr choice i) with srcReg := 0, code := 0xb4 })
    (ahead i (Nat.le_refl _)) (by simp) (fun j above => ahead j (by omega))
    (fun k above => by
      rw [blinding, Blinding.size] at lower
      rw [Function.update_of_ne (by omega)]
      exact ahead' k (by omega))
    cls code.symm (by rw [first, zero]) (by rw [first]) (fun _ => src.symm) (Or.inl rfl) plain
  refine ⟨folded', Function.update mem' (blindAddr choice i)
      { mem' (blindAddr choice i) with srcReg := 0, code := 0xb4 }, ?_, alike',
    restores_update _ _ _ _ (blind_addr_lt choice (Nat.lt_succ_self i)) rfl⟩
  rw [add_fold_zero, Nat.add_zero] at done'
  have noAx : ¬ ((mem' (blindAddr choice i)).op = 0xb0 ∧
      (mem' (blindAddr choice i)).dstReg = bpfRegAx) := by
    rw [first]
    exact fun both => absurd both.1 (by simp [BpfInsn.op])
  have xors : (mem' (blindAddr choice i)).op = 0xa0 ∧ (mem' (blindAddr choice i)).src = 0x08 ∧
      (mem' (blindAddr choice i)).srcReg = (mem' (blindAddr choice i)).dstReg := by
    rw [first]
    simp [BpfInsn.op, BpfInsn.src]
  rw [aluInsn]
  dsimp only
  rw [if_neg noAx, if_pos xors, done']
  rfl

theorem split_alu_alike {rnd : Word} (blinding : choice i = .split rnd) :
    ∃ folded' after', aluInsn mem' (blindAddr choice i) flags' = .ok (folded', after') ∧
      FoldedAlike choice ebpfs len flags flags' i (blindAddr choice i) folded folded' ∧
      Restores (blindAddr choice (i + 1)) mem' after' := by
  have lower := blind_addr_succ choice i
  obtain ⟨after', put, restored, restores⟩ :=
    @split_restored choice ebpfs blinded len blinds mem' flags' i inside ahead' rnd blinding
  have src (move : (ebpfs i).op = 0xb0) : (0 : BitVec 4) = (ebpfs i).srcReg := by
    have permits := blinds.permits i inside
    rw [blinding] at permits
    simp only [BpfInsn.Permits, BpfInsn.blindable, Bool.and_eq_true, beq_iff_eq] at permits
    exact ((tidy.move i inside cls move).2.1 permits.1).2.symm
  obtain ⟨folded', done', alike'⟩ := translated_alike tidy blinds fits inside fold fold' alike cls folded
    (ebpfs i) { ebpfs i with off := adjustedOff choice (ebpfs i) i, srcReg := 0 } 2 2 rfl
    (by rw [blinding]; rfl) (by decide) mem after' (ahead i (Nat.le_refl _)) put
    (fun j above => ahead j (by omega))
    (fun k above => by
      rw [restores.ahead k above]
      exact ahead' k (by omega))
    cls rfl rfl rfl src (Or.inl rfl) plain
  refine ⟨folded', after', ?_, alike', restores⟩
  rw [restored, done']
  rfl

end Choices

theorem blind_alu_alike (cls : (ebpfs i).cls = 0x04 ∨ (ebpfs i).cls = 0x07) (folded : Folded)
    (after : Nat → BpfInsn) (done : aluInsn mem i flags = .ok (folded, after)) :
    ∃ folded' after', aluInsn mem' (blindAddr choice i) flags' = .ok (folded', after') ∧
      FoldedAlike choice ebpfs len flags flags' i (blindAddr choice i) folded folded' ∧
      Restores (i + 1) mem after ∧ Restores (blindAddr choice (i + 1)) mem' after' := by
  have here := ahead i (Nat.le_refl _)
  have noAx : ¬ ((ebpfs i).op = 0xb0 ∧ (ebpfs i).dstReg = bpfRegAx) :=
    fun both => (tidy.move i inside cls both.1).1 both.2
  unfold aluInsn at done
  dsimp only at done
  rw [here, if_neg noAx] at done
  by_cases xors : (ebpfs i).op = 0xa0 ∧ (ebpfs i).src = 0x08 ∧ (ebpfs i).srcReg = (ebpfs i).dstReg
  · rw [if_pos xors] at done
    obtain ⟨inner, plain, same⟩ := map_ok _ _ _ done
    obtain ⟨rfl, rfl⟩ := Prod.mk.inj same
    obtain ⟨folded', after', done', alike', restores⟩ :=
      xor_alike tidy blinds fits inside ahead ahead' fold fold' alike cls xors _ plain
    exact ⟨folded', after', done', alike', restores_update _ _ _ _ (by omega) (by rw [here]), restores⟩
  · rw [if_neg xors] at done
    obtain ⟨inner, plain, same⟩ := map_ok _ _ _ done
    obtain ⟨rfl, rfl⟩ := Prod.mk.inj same
    have found : ∃ folded' after',
        aluInsn mem' (blindAddr choice i) flags' = .ok (folded', after') ∧
          FoldedAlike choice ebpfs len flags flags' i (blindAddr choice i) inner folded' ∧
          Restores (blindAddr choice (i + 1)) mem' after' := by
      cases blinding : choice i with
      | kept =>
          exact kept_alu_alike tidy blinds fits inside ahead ahead' fold fold' alike cls _ plain
            blinding xors
      | cleared =>
          exact cleared_alu_alike tidy blinds fits inside ahead ahead' fold fold' alike cls _ plain
            blinding
      | split rnd =>
          exact split_alu_alike tidy blinds fits inside ahead ahead' fold fold' alike cls _ plain
            blinding
    obtain ⟨folded', after', done', alike', restores⟩ := found
    exact ⟨folded', after', done', alike', restores_refl _ _, restores⟩

end Alu

/-- Both first passes stand at instruction `i`, having done the same. -/
structure PassAlike (choice : Nat → Blinding) (ebpfs blinded : Nat → BpfInsn) (len i : Nat)
    (pass pass' : Pass) : Prop where
  code : ∀ j, i ≤ j → pass.ebpfs j = ebpfs j
  code' : ∀ k, blindAddr choice i ≤ k → pass'.ebpfs k = blinded k
  off : ∀ j, (pass.ebpfs j).off = (ebpfs j).off
  off' : ∀ k, (pass'.ebpfs k).off = (blinded k).off
  flags : FlagsAlike choice len pass.flags pass'.flags
  fold : ∀ j, i ≤ j → (pass.flags j).fold.toNat = 0
  fold' : ∀ k, blindAddr choice i ≤ k → (pass'.flags k).fold.toNat = 0
  bits : Spread.Spreads (fun j => (choice j).size) i pass.bitmap.has pass'.bitmap.has
  ahead : ∀ j, i ≤ j → pass.bitmap.has j = false
  ahead' : ∀ k, blindAddr choice i ≤ k → pass'.bitmap.has k = false
  buf : ∀ j, j < i → pass.bitmap.has j = false → pass'.buf (blindAddr choice j) = pass.buf j
  jumps : ∀ j, j < i → pass.bitmap.has j = false → bpfClass (pass.buf j).code = 0x05 →
    BranchKept choice ebpfs len j (blindAddr choice j) (pass.flags j).fold.toNat
      (pass'.flags (blindAddr choice j)).fold.toNat (pass.buf j)

theorem spreads_write {choice : Nat → Blinding} {i ate ate' : Nat} {bitmap bitmap' : Bitmap}
    (bits : Spread.Spreads (fun j => (choice j).size) i bitmap.has bitmap'.has)
    (ahead : ∀ j, i ≤ j → bitmap.has j = false)
    (ahead' : ∀ k, blindAddr choice i ≤ k → bitmap'.has k = false)
    (small : ate < 32 ∧ ate' < 32)
    (width : blindAddr choice i + ate' + 1 = blindAddr choice (i + ate + 1)) :
    Spread.Spreads (fun j => (choice j).size) (i + ate + 1) (setbits bitmap (i + 1) ate).has
      (setbits bitmap' (blindAddr choice i + 1) ate').has := by
  constructor
  · intro j below
    change (setbits bitmap' _ _).has (blindAddr choice j) = _
    rw [has_setbits _ _ _ _ small.1, has_setbits _ _ _ _ small.2]
    rcases Nat.lt_trichotomy j i with less | rfl | later
    · have lower := blind_addr_lt choice less
      rw [show bitmap'.has (blindAddr choice j) = bitmap.has j from bits.starts j less]
      congr 1
      exact decide_eq_decide.mpr (by omega)
    · rw [ahead j (Nat.le_refl _), ahead' _ (Nat.le_refl _)]
      congr 1
      exact decide_eq_decide.mpr (by omega)
    · have lower := blind_addr_lt choice later
      have upper := blind_addr_lt choice below
      rw [ahead j (by omega), ahead' _ (by omega)]
      congr 1
      exact decide_eq_decide.mpr (by omega)
  · intro j below n positive room
    change (setbits bitmap' _ _).has (blindAddr choice j + n) = true
    rw [has_setbits _ _ _ _ small.2, Bool.or_eq_true, decide_eq_true_iff]
    rcases Nat.lt_or_ge j i with less | reached
    · exact Or.inl (bits.inner j less n positive room)
    · have lower := blind_addr_le choice reached
      have upper := blind_addr_le choice (show j + 1 ≤ i + ate + 1 from below)
      rw [blind_addr_succ] at upper
      exact Or.inr (by omega)

section Pass

variable {choice : Nat → Blinding} {ebpfs blinded : Nat → BpfInsn} {len : Nat}
variable {pass pass' : Pass} {i : Nat}
variable (state : PassAlike choice ebpfs blinded len i pass pass')

include state

theorem pass_alike_write {folded folded' : Folded} {mem mem' : Nat → BpfInsn}
    (same : FoldedAlike choice ebpfs len pass.flags pass'.flags i (blindAddr choice i) folded folded')
    (restores : Restores (i + 1) pass.ebpfs mem)
    (restores' : Restores (blindAddr choice (i + 1)) pass'.ebpfs mem') :
    PassAlike choice ebpfs blinded len (i + folded.2.1 + 1)
      ({ pass with ebpfs := mem }.write i folded).1
      ({ pass' with ebpfs := mem' }.write (blindAddr choice i) folded').1 := by
  have width := same.width
  have grows := blind_addr_le choice (show i + 1 ≤ i + folded.2.1 + 1 by omega)
  have kept (j : Nat) (below : j < i + folded.2.1 + 1)
      (clear : (setbits pass.bitmap (i + 1) folded.2.1).has j = false) :
      j < i ∧ pass.bitmap.has j = false ∨ j = i := by
    rw [has_setbits _ _ _ _ same.small.1, Bool.or_eq_false_iff, decide_eq_false_iff_not] at clear
    rcases Nat.lt_trichotomy j i with less | equal | later
    · exact Or.inl ⟨less, clear.1⟩
    · exact Or.inr equal
    · omega
  have apart (j : Nat) (less : j < i) : blindAddr choice j ≠ blindAddr choice i :=
    Nat.ne_of_lt (blind_addr_lt choice less)
  refine ⟨?_, ?_, ?_, ?_, same.alike, ?_, ?_, ?_, ?_, ?_, ?_, ?_⟩
  · intro j above
    exact (restores.ahead j (by omega)).trans (state.code j (by omega))
  · intro k above
    have lower := blind_addr_le choice (Nat.le_succ i)
    exact (restores'.ahead k (by omega)).trans (state.code' k (by omega))
  · exact fun j => (restores.off j).trans (state.off j)
  · exact fun k => (restores'.off k).trans (state.off' k)
  · intro j above
    rw [Pass.write, same.folds j (by omega)]
    exact state.fold j (by omega)
  · intro k above
    rw [Pass.write, same.folds' k (by omega)]
    exact state.fold' k (by omega)
  · exact spreads_write state.bits state.ahead state.ahead' same.small width
  · intro j above
    rw [Pass.write, has_setbits _ _ _ _ same.small.1, state.ahead j (by omega), Bool.false_or,
      decide_eq_false_iff_not]
    omega
  · intro k above
    rw [Pass.write, has_setbits _ _ _ _ same.small.2, state.ahead' k (by omega), Bool.false_or,
      decide_eq_false_iff_not]
    omega
  · intro j below clear
    rcases kept j below clear with ⟨less, before⟩ | rfl
    · simpa [Pass.write, apart j less, Nat.ne_of_lt less] using state.buf j less before
    · simpa [Pass.write] using same.filter
  · intro j below clear class_
    rcases kept j below clear with ⟨less, before⟩ | rfl
    · have there : (({ pass with ebpfs := mem }.write i folded).1.buf j) = pass.buf j := by
        simp [Pass.write, Nat.ne_of_lt less]
      rw [there] at class_ ⊢
      simp only [Pass.write]
      rw [same.folds j (by omega), same.folds' _ (apart j less)]
      exact state.jumps j less before class_
    · simp only [Pass.write, Function.update_self] at class_ ⊢
      exact same.jump class_

variable (tidy : Tidy ebpfs len) (blinds : Blinds choice ebpfs len blinded)
variable (fits : blindAddr choice len ≤ 0x8000) (inside : i < len)

include tidy blinds fits inside

theorem fold_jump_alike (cls : (ebpfs i).cls = 0x05) (folded : Folded)
    (done : jmpNotCheck pass.ebpfs i 0 0 pass.flags i = .ok folded) :
    ∃ folded' mem', foldInsn pass' (blindAddr choice i) =
        .ok ({ pass' with ebpfs := mem' }.write (blindAddr choice i) folded') ∧
      FoldedAlike choice ebpfs len pass.flags pass'.flags i (blindAddr choice i) folded folded' ∧
      Restores (blindAddr choice (i + 1)) pass'.ebpfs mem' := by
  have here := state.code i (Nat.le_refl _)
  have fold := state.fold i (Nat.le_refl _)
  have fold' := state.fold' (blindAddr choice i) (Nat.le_refl _)
  have lower := blind_addr_succ choice i
  have ahead (j : Nat) (above : i + 0 + 1 ≤ j) : pass.ebpfs j = ebpfs j := state.code j (by omega)
  cases blinding : choice i with
  | kept =>
      -- the jump was not blinded: both sides read the same instruction
      have first := blinds_kept blinds inside blinding
      rw [← state.code' _ (Nat.le_refl _)] at first
      rw [blinding, Blinding.size] at lower
      have cls' : (pass'.ebpfs (blindAddr choice i)).cls = 0x05 := by
        rw [first]
        exact cls
      have standing := standing_here fold fold' state.flags 0 0 rfl (by rw [blinding]; rfl)
      rw [add_fold_zero] at standing
      obtain ⟨folded', done', same⟩ := jmp_alike tidy blinds fits standing ahead
        (fun k above => state.code' k (by omega)) 0 inside cls here
        (by rw [Nat.add_zero, Nat.add_zero, first, here])
        (by rw [Nat.add_zero, Nat.add_zero, first, here])
        (fun _ => by rw [Nat.add_zero, Nat.add_zero, first]) (fun _ => ⟨rfl, rfl⟩)
        (by omega) folded done
      refine ⟨folded', pass'.ebpfs, ?_, same, restores_refl _ _⟩
      rw [Nat.add_zero] at done'
      rw [foldInsn]
      dsimp only
      rw [if_neg (by simp [cls']), if_neg (by simp [cls']), if_neg (by simp [cls']), if_pos cls', done']
      rfl
  | cleared =>
      -- only a move of zero is cleared, which is no jump
      have permits := blinds.permits i inside
      rw [blinding] at permits
      rcases permits.1 with code | code <;> rw [BpfInsn.cls, code] at cls <;>
        exact absurd cls (by decide)
  | split rnd =>
      -- mov, xor, jump: the first two are taken back before the jump is folded
      obtain ⟨after', put, restored, restores⟩ := @split_restored choice ebpfs blinded len blinds
        pass'.ebpfs pass'.flags i inside state.code' rnd blinding
      have first := (blinds_split blinds inside blinding).1
      rw [← state.code' _ (Nat.le_refl _)] at first
      have cls' : (pass'.ebpfs (blindAddr choice i)).cls = 0x07 := by
        rw [first, BpfInsn.cls]
        simp [cls]
      rw [blinding, Blinding.size] at lower
      have standing := standing_here fold fold' state.flags 2 2 rfl (by rw [blinding]; rfl)
      have notJa : (ebpfs i).op ≠ 0x00 := by
        have permits := blinds.permits i inside
        rw [blinding] at permits
        intro zero
        simp [BpfInsn.Permits, BpfInsn.blindable, cls, zero] at permits
      have ahead' (k : Nat) (above : blindAddr choice i + 2 + 1 ≤ k) : after' k = blinded k := by
        rw [restores.ahead k (by omega)]
        exact state.code' k (by omega)
      obtain ⟨folded', done', same⟩ := jmp_alike tidy blinds fits standing ahead ahead'
        0 inside cls here (by rw [put, Nat.add_zero, here]) (by rw [put, Nat.add_zero, here])
        (fun _ => by rw [put, Nat.add_zero]) (fun zero => absurd zero notJa) (by omega) folded done
      refine ⟨folded', after', ?_, folded_alike_raised same, restores⟩
      have jump : (after' (blindAddr choice i + 2)).cls = 0x05 := by
        rw [put]
        exact cls
      have plain : aluPlain after' (blindAddr choice i + 2) 2
          (pass'.flags.addFold (blindAddr choice i) 2) (blindAddr choice i) = .ok folded' := by
        rw [aluPlain, if_pos jump]
        exact done'
      rw [foldInsn]
      dsimp only
      rw [if_neg (by simp [cls']), if_neg (by simp [cls']), if_pos (Or.inr cls'), restored, plain]
      rfl

theorem fold_alike {after : Pass} {ate : Nat} (done : foldInsn pass i = .ok (after, ate)) :
    ∃ after' ate', foldInsn pass' (blindAddr choice i) = .ok (after', ate') ∧
      blindAddr choice i + ate' + 1 = blindAddr choice (i + ate + 1) ∧ i + ate + 1 ≤ len ∧
      PassAlike choice ebpfs blinded len (i + ate + 1) after after' := by
  have here := state.code i (Nat.le_refl _)
  have fold := state.fold i (Nat.le_refl _)
  have fold' := state.fold' (blindAddr choice i) (Nat.le_refl _)
  -- loads and stores are not blinded
  have single (filter : Filter) (plain : (ebpfs i).blindable = false)
      (class_ : bpfClass filter.code ≠ 0x05) (same : (after, ate) = pass.write i (filter, 0, pass.flags))
      (done' : foldInsn pass' (blindAddr choice i) =
        .ok (pass'.write (blindAddr choice i) (filter, 0, pass'.flags))) :
      ∃ after' ate', foldInsn pass' (blindAddr choice i) = .ok (after', ate') ∧
        blindAddr choice i + ate' + 1 = blindAddr choice (i + ate + 1) ∧ i + ate + 1 ≤ len ∧
        PassAlike choice ebpfs blinded len (i + ate + 1) after after' := by
    obtain ⟨rfl, rfl⟩ := Prod.mk.inj same
    have width := (blinds_plain blinds inside plain).2.symm
    exact ⟨_, _, done', width, inside, pass_alike_write state ⟨rfl, width, state.flags, fun _ _ => rfl,
      fun _ _ => rfl, fun jump => absurd jump class_, by dsimp only; omega, inside⟩ (restores_refl _ _)
        (restores_refl _ _)⟩
  have plain (cls : (ebpfs i).cls = 0x01 ∨ (ebpfs i).cls = 0x03) : (ebpfs i).blindable = false := by
    rcases cls with cls | cls <;> simp [BpfInsn.blindable, cls]
  have copied (cls : (ebpfs i).cls = 0x01 ∨ (ebpfs i).cls = 0x03) :
      pass'.ebpfs (blindAddr choice i) = ebpfs i := by
    have straight : (ebpfs i).jumps = false := by
      rcases cls with cls | cls <;> simp [BpfInsn.jumps, cls]
    rw [state.code' _ (Nat.le_refl _), (blinds_plain blinds inside (plain cls)).1, adjustedOff,
      straight]
    rfl
  by_cases ldx : (ebpfs i).cls = 0x01
  · have same := copied (Or.inl ldx)
    unfold foldInsn at done
    dsimp only at done
    rw [here, if_pos ldx] at done
    split at done
    · next ctx =>
        refine single _ (plain (Or.inl ldx)) ?_ (Except.ok.inj done).symm ?_
        · simp [cbpfStmt, bpfClass]
        · rw [foldInsn]
          dsimp only
          rw [same, if_pos ldx, if_pos ctx]
    · next mem =>
        split at done
        · next frame =>
            refine single _ (plain (Or.inl ldx)) ?_ (Except.ok.inj done).symm ?_
            · split <;> simp [cbpfStmt, bpfClass]
            · rw [foldInsn]
              dsimp only
              rw [same, if_pos ldx, if_neg mem, if_pos frame]
        · cases done
  by_cases stx : (ebpfs i).cls = 0x03
  · have same := copied (Or.inr stx)
    unfold foldInsn at done
    dsimp only at done
    rw [here, if_neg ldx, if_pos stx] at done
    refine single _ (plain (Or.inr stx)) ?_ (Except.ok.inj done).symm ?_
    · split <;> simp [cbpfStmt, bpfClass]
    · rw [foldInsn]
      dsimp only
      rw [same, if_neg ldx, if_pos stx]
  by_cases alu : (ebpfs i).cls = 0x04 ∨ (ebpfs i).cls = 0x07
  · unfold foldInsn at done
    dsimp only at done
    rw [here, if_neg ldx, if_neg stx, if_pos alu] at done
    obtain ⟨⟨folded, mem⟩, folds, written⟩ := map_ok _ _ _ done
    obtain ⟨folded', mem', folds', same, restores, restores'⟩ :=
      blind_alu_alike tidy blinds fits inside state.code state.code' fold fold' state.flags alu folded mem
        folds
    obtain ⟨rfl, rfl⟩ := Prod.mk.inj written
    refine ⟨_, _, ?_, same.width, same.room, pass_alike_write state same restores restores'⟩
    have cls' := blinded_alu_class blinds inside alu
    rw [← state.code' _ (Nat.le_refl _)] at cls'
    have noLdx : (pass'.ebpfs (blindAddr choice i)).cls ≠ 0x01 := by
      rcases cls' with cls | cls <;> simp [cls]
    have noStx : (pass'.ebpfs (blindAddr choice i)).cls ≠ 0x03 := by
      rcases cls' with cls | cls <;> simp [cls]
    rw [foldInsn]
    dsimp only
    rw [if_neg noLdx, if_neg noStx, if_pos cls', folds']
    rfl
  · unfold foldInsn at done
    dsimp only at done
    rw [here, if_neg ldx, if_neg stx, if_neg alu] at done
    split at done
    · next jmp =>
        obtain ⟨folded, folds, written⟩ := map_ok _ _ _ done
        obtain ⟨folded', mem', folds', same, restores'⟩ :=
          fold_jump_alike state tidy blinds fits inside jmp folded folds
        obtain ⟨rfl, rfl⟩ := Prod.mk.inj written
        exact ⟨_, _, folds', same.width, same.room,
          pass_alike_write state same (restores_refl _ _) restores'⟩
    · cases done

end Pass

theorem first_pass_alike {choice : Nat → Blinding} {ebpfs blinded : Nat → BpfInsn} {len : Nat}
    (tidy : Tidy ebpfs len) (blinds : Blinds choice ebpfs len blinded)
    (fits : blindAddr choice len ≤ 0x8000) (rounds rounds' i : Nat) (pass pass' done : Pass)
    (state : PassAlike choice ebpfs blinded len i pass pass') (le : i ≤ len)
    (enough : len ≤ i + rounds) (enough' : blindAddr choice len ≤ blindAddr choice i + rounds')
    (passed : firstPass len rounds i pass = .ok done) :
    ∃ done', firstPass (blindAddr choice len) rounds' (blindAddr choice i) pass' = .ok done' ∧
      PassAlike choice ebpfs blinded len len done done' := by
  -- one round on each side; both go on at the same instruction, at its place in the blinded code
  induction rounds generalizing i pass pass' rounds' with
  | zero =>
      obtain rfl : i = len := by omega
      obtain rfl := Except.ok.inj passed
      refine ⟨pass', ?_, state⟩
      cases rounds' with
      | zero => rfl
      | succ rounds' => rw [firstPass, if_neg (Nat.lt_irrefl _)]
  | succ rounds ih =>
      rw [firstPass] at passed
      rcases Nat.eq_or_lt_of_le le with rfl | inside
      · rw [if_neg (Nat.lt_irrefl _)] at passed
        obtain rfl := Except.ok.inj passed
        refine ⟨pass', ?_, state⟩
        cases rounds' with
        | zero => rfl
        | succ rounds' => rw [firstPass, if_neg (Nat.lt_irrefl _)]
      · rw [if_pos inside] at passed
        have inside' := blind_addr_lt choice inside
        cases folds : foldInsn pass i with
        | error err =>
            rw [folds] at passed
            cases passed
        | ok result =>
            obtain ⟨after, ate⟩ := result
            rw [folds] at passed
            obtain ⟨after', ate', folds', width, room, next⟩ :=
              fold_alike state tidy blinds fits inside folds
            cases rounds' with
            | zero => omega
            | succ rounds' =>
                -- the blinded side needs as many rounds, having as many instructions left
                have grows := blind_addr_lt choice (show i < i + ate + 1 by omega)
                rw [firstPass, if_pos inside', folds']
                dsimp only
                rw [width]
                exact ih rounds' (i + ate + 1) after after' next room (by omega) (by omega) passed

end Ceccomp
