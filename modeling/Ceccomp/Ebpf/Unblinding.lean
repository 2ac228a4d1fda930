import Ceccomp.Ebpf.Blinding

/-!
The first pass over blinded code stands where it stands over the code before
blinding, and folds to the same filters: what blinding puts in front of an
instruction is eaten with it.
-/

namespace Ceccomp

def FlagsAlike (choice : Nat → Blinding) (len : Nat) (flags flags' : Flags) : Prop :=
  ∀ j, j < len → (flags' (blindAddr choice j)).targeted = (flags j).targeted

theorem flags_alike_target {choice : Nat → Blinding} {len : Nat} {flags flags' : Flags}
    (alike : FlagsAlike choice len flags flags') (idx : Nat) :
    FlagsAlike choice len (flags.target idx) (flags'.target (blindAddr choice idx)) := by
  intro j inside
  have before := alike j inside
  by_cases same : j = idx
  · subst same
    simp [Flags.target]
  · have apart : blindAddr choice j ≠ blindAddr choice idx :=
      fun equal => same (blind_addr_inj choice equal)
    simpa [Flags.target, same, apart] using before

theorem permits_kept {insn : BpfInsn} {blinding : Blinding} (permits : insn.Permits blinding)
    (plain : insn.blindable = false) : blinding = .kept := by
  cases blinding with
  | kept => rfl
  | cleared =>
      obtain ⟨code, _⟩ := permits
      rcases code with code | code <;>
        simp [BpfInsn.blindable, BpfInsn.cls, BpfInsn.op, BpfInsn.src, code] at plain
  | split rnd => simp [BpfInsn.Permits, plain] at permits

theorem unblindable_src {insn : BpfInsn} (reg : insn.src = 0x08) : insn.blindable = false := by
  simp [BpfInsn.blindable, reg]

section Memory

variable {choice : Nat → Blinding} {ebpfs blinded : Nat → BpfInsn} {len : Nat}
variable (blinds : Blinds choice ebpfs len blinded) {i : Nat} (inside : i < len)

include blinds inside

theorem blinds_get (j : Nat) (small : j < (choice i).size) :
    (blindAt choice ebpfs i)[j]? = some (blinded (blindAddr choice i + j)) := by
  have later := blind_addr_le choice (show i + 1 ≤ len from inside)
  rw [blind_addr_succ] at later
  rw [← blinds.held _ (by omega), blind_constants_get choice ebpfs len i j inside small]

theorem blinds_kept (kept : choice i = .kept) :
    blinded (blindAddr choice i) = { ebpfs i with off := adjustedOff choice (ebpfs i) i } := by
  have first := blinds_get blinds inside 0 (blinding_size_pos _)
  simpa [blindAt, kept, blindInsn, eq_comm] using first

theorem blinds_cleared (cleared : choice i = .cleared) :
    blinded (blindAddr choice i) = ⟨0xaf, (ebpfs i).dstReg, (ebpfs i).dstReg, 0, 0⟩ := by
  have first := blinds_get blinds inside 0 (blinding_size_pos _)
  simpa [blindAt, cleared, blindInsn, eq_comm] using first

theorem blinds_split {rnd : Word} (split : choice i = .split rnd) :
    let cls : BitVec 8 := if (ebpfs i).cls = 0x04 then 0x04 else 0x07
    blinded (blindAddr choice i) = ⟨cls ||| 0xb0, bpfRegAx, 0, 0, rnd ^^^ (ebpfs i).imm⟩ ∧
      blinded (blindAddr choice i + 1) = ⟨cls ||| 0xa0, bpfRegAx, 0, 0, rnd⟩ ∧
      blinded (blindAddr choice i + 2) = ⟨(ebpfs i).code ||| 0x08, (ebpfs i).dstReg, bpfRegAx,
        adjustedOff choice (ebpfs i) i, 0⟩ := by
  have size : (choice i).size = 3 := by rw [split]; rfl
  have first := blinds_get blinds inside 0 (by omega)
  have second := blinds_get blinds inside 1 (by omega)
  have third := blinds_get blinds inside 2 (by omega)
  simp only [blindAt, split, blindInsn, List.getElem?_cons_zero, List.getElem?_cons_succ,
    Option.some.injEq, Nat.add_zero] at first second third
  exact ⟨first.symm, second.symm, third.symm⟩

theorem blinds_plain (plain : (ebpfs i).blindable = false) :
    blinded (blindAddr choice i) = { ebpfs i with off := adjustedOff choice (ebpfs i) i } ∧
      blindAddr choice (i + 1) = blindAddr choice i + 1 := by
  have kept := permits_kept (blinds.permits i inside) plain
  refine ⟨blinds_kept blinds inside kept, ?_⟩
  rw [blind_addr_succ, kept]
  rfl

theorem blinds_first_code (code : BitVec 8) (listed : code = 0x05 ∨ code = 0x95) :
    (blinded (blindAddr choice i)).code = code ↔ (ebpfs i).code = code := by
  have permits := blinds.permits i inside
  cases blinding : choice i with
  | kept => rw [blinds_kept blinds inside blinding]
  | cleared =>
      rw [blinding] at permits
      rw [blinds_cleared blinds inside blinding]
      rcases permits.1 with own | own <;> rcases listed with rfl | rfl <;> simp [own]
  | split rnd =>
      rw [blinding] at permits
      rw [(blinds_split blinds inside blinding).1]
      have other : (ebpfs i).code ≠ code := by
        rintro rfl
        rcases listed with same | same <;>
          simp [BpfInsn.Permits, BpfInsn.blindable, BpfInsn.cls, BpfInsn.op, BpfInsn.src, same]
            at permits
      have first : (if (ebpfs i).cls = 0x04 then (0x04 : BitVec 8) else 0x07) ||| 0xb0 ≠ code := by
        rcases listed with rfl | rfl <;> split <;> decide
      exact ⟨fun same => absurd same first, fun same => absurd same other⟩

end Memory

section Offsets

variable {choice : Nat → Blinding} {ebpfs : Nat → BpfInsn} {len : Nat}
variable (tidy : Tidy ebpfs len) {i : Nat} (inside : i < len) (jumps : (ebpfs i).jumps = true)

include tidy inside jumps

theorem jump_target : i < jumpTarget (ebpfs i) i ∧ jumpTarget (ebpfs i) i < len ∧
    (jumpTarget (ebpfs i) i : Int) = i + 1 + (ebpfs i).off.toInt := by
  have bounded := tidy.inside i inside
  unfold jumpsInside at bounded
  have both : ((ebpfs i).cls = 0x05 ∨ (ebpfs i).cls = 0x06) ∧ (ebpfs i).op ≠ 0x90 := by
    simpa [BpfInsn.jumps] using jumps
  dsimp only at bounded
  rw [if_pos both, decide_eq_true_iff] at bounded
  unfold jumpTarget
  omega

theorem adjusted_target (fits : blindAddr choice len ≤ 0x8000) :
    (blindAddr choice (i + 1) : Int) + (adjustedOff choice (ebpfs i) i).toInt =
      blindAddr choice (jumpTarget (ebpfs i) i) := by
  obtain ⟨ahead, below, _⟩ := jump_target tidy inside jumps
  have grows := blind_addr_le choice (show i + 1 ≤ jumpTarget (ebpfs i) i from ahead)
  have bound := blind_addr_lt choice below
  rw [adjustedOff, if_pos jumps, BitVec.toInt_ofInt, Int.bmod_eq_of_le] <;> omega

end Offsets

/-- Both passes have read `ate` instructions more than the flag they write. -/
structure Standing (choice : Nat → Blinding) (len : Nat) (flags flags' : Flags)
    (w ate w' ate' : Nat) : Prop where
  fold : (flags w).fold.toNat = ate
  fold' : (flags' w').fold.toNat = ate'
  width : w' + ate' + 1 = blindAddr choice (w + ate + 1)
  alike : FlagsAlike choice len flags flags'

/-- What the second pass needs of a filter `f` that jumps, kept at `w`. -/
structure BranchKept (choice : Nat → Blinding) (ebpfs : Nat → BpfInsn) (len : Nat) (w w' : Nat)
    (fold fold' : Nat) (f : Filter) : Prop where
  inside : w + fold < len
  jumps : (ebpfs (w + fold)).jumps = true
  width : w' + fold' + 1 = blindAddr choice (w + fold + 1)
  both : f.jt ≠ 0 → f.jf ≠ 0 → w + fold + 1 < len ∧ (ebpfs (w + fold + 1)).code = 0x05
  plain : f.jt = 0 → f.jf = 0 → fold = 0 ∧ fold' = 0

/-- The two passes fold to the same filter and go on at the same instruction. -/
structure FoldedAlike (choice : Nat → Blinding) (ebpfs : Nat → BpfInsn) (len : Nat)
    (flags flags' : Flags) (w w' : Nat) (folded folded' : Folded) : Prop where
  filter : folded'.1 = folded.1
  width : w' + folded'.2.1 + 1 = blindAddr choice (w + folded.2.1 + 1)
  alike : FlagsAlike choice len folded.2.2 folded'.2.2
  folds : ∀ idx, idx ≠ w → (folded.2.2 idx).fold = (flags idx).fold
  folds' : ∀ idx, idx ≠ w' → (folded'.2.2 idx).fold = (flags' idx).fold
  jump : bpfClass folded.1.code = 0x05 → BranchKept choice ebpfs len w w'
    (folded.2.2 w).fold.toNat (folded'.2.2 w').fold.toNat folded.1
  small : folded.2.1 < 32 ∧ folded'.2.1 < 32
  room : w + folded.2.1 < len

section Fold

variable {choice : Nat → Blinding} {ebpfs blinded : Nat → BpfInsn} {len : Nat}
variable (tidy : Tidy ebpfs len) (blinds : Blinds choice ebpfs len blinded)
variable (fits : blindAddr choice len ≤ 0x8000)
variable {mem mem' : Nat → BpfInsn} {flags flags' : Flags} {w ate w' ate' : Nat}
variable (standing : Standing choice len flags flags' w ate w' ate')
variable (ahead : ∀ j, w + ate + 1 ≤ j → mem j = ebpfs j)
variable (ahead' : ∀ j, w' + ate' + 1 ≤ j → mem' j = blinded j)

include tidy in
theorem behind_inside {i : Nat} (inside : i < len) (other : (ebpfs i).code ≠ 0x95) :
    i + 1 < len := by
  obtain ⟨last, size, code⟩ := tidy.last
  rcases Nat.lt_or_ge (i + 1) len with less | final
  · exact less
  · obtain rfl : i = last := by omega
    exact absurd code other

include standing

section Targets

variable (inside : w + ate < len) (jumps : (ebpfs (w + ate)).jumps = true)

include tidy fits inside jumps

theorem target_idx (off : (mem' (w' + ate')).off = adjustedOff choice (ebpfs (w + ate)) (w + ate)) :
    flagIdx w (ate + (ebpfs (w + ate)).off.toInt + 1) = jumpTarget (ebpfs (w + ate)) (w + ate) ∧
      flagIdx w' (ate' + (mem' (w' + ate')).off.toInt + 1) =
        blindAddr choice (jumpTarget (ebpfs (w + ate)) (w + ate)) := by
  have width := standing.width
  obtain ⟨later, below, target⟩ := jump_target tidy inside jumps
  have adjusted := adjusted_target tidy inside jumps fits
  rw [← off, ← width] at adjusted
  unfold flagIdx
  constructor
  · omega
  · omega

theorem always_alike (ate0 : ate = 0) (ate0' : ate' = 0) (f : Filter) (plain : f.jt = 0 ∧ f.jf = 0)
    (off : (mem' (w' + ate')).off = adjustedOff choice (ebpfs (w + ate)) (w + ate)) :
    FoldedAlike choice ebpfs len flags flags' w w'
      (f, ate, flags.target (flagIdx w ((ebpfs (w + ate)).off.toInt + 1)))
      (f, ate', flags'.target (flagIdx w' ((mem' (w' + ate')).off.toInt + 1))) := by
  obtain ⟨idx, idx'⟩ := target_idx tidy fits standing inside jumps off
  obtain ⟨fold, fold', width, alike⟩ := standing
  subst ate0 ate0'
  simp only [Int.natCast_zero, Int.zero_add] at idx idx'
  rw [idx, idx']
  refine ⟨rfl, width, flags_alike_target alike _, fun other _ => target_fold _ _ other,
    fun other _ => target_fold _ _ other, fun _ => ?_, by simp, inside⟩
  dsimp only
  rw [target_fold, target_fold, fold, fold']
  exact ⟨inside, jumps, width, fun set => absurd plain.1 set, fun _ _ => ⟨rfl, rfl⟩⟩

end Targets

section Branches

variable (inside : w + ate < len) (jumps : (ebpfs (w + ate)).jumps = true)
variable (small : ate < 8 ∧ ate' < 8) {hit hit' : Flags} (marked : FlagsAlike choice len hit hit')
variable (same : ∀ idx, (hit idx).fold = (flags idx).fold)
variable (same' : ∀ idx, (hit' idx).fold = (flags' idx).fold)

include inside jumps small marked same same'

theorem branch_alike (f : Filter) (one : f.jt = 0 ∨ f.jf = 0) (some_ : f.jt ≠ 0 ∨ f.jf ≠ 0) :
    FoldedAlike choice ebpfs len flags flags' w w' (f, ate, hit) (f, ate', hit') := by
  obtain ⟨fold, fold', width, _⟩ := standing
  refine ⟨rfl, width, marked, fun idx _ => same idx, fun idx _ => same' idx, fun _ => ?_,
    by dsimp only; omega, inside⟩
  dsimp only
  rw [same, same', fold, fold']
  refine ⟨inside, jumps, width, fun jt jf => ?_, fun jt jf => by simp [jt, jf] at some_⟩
  rcases one with zero | zero
  · exact absurd zero jt
  · exact absurd zero jf

include tidy blinds fits ahead'

theorem absorbing_alike (behind : w + ate + 1 < len) (ja : (ebpfs (w + ate + 1)).code = 0x05)
    (f : Filter) (some_ : f.jt ≠ 0 ∨ f.jf ≠ 0) :
    FoldedAlike choice ebpfs len flags flags' w w'
      (f, ate + 1, hit.target (flagIdx (w + ate + 1) ((ebpfs (w + ate + 1)).off.toInt + 1)))
      (f, ate' + 1, hit'.target (flagIdx (blindAddr choice (w + ate + 1))
        ((mem' (blindAddr choice (w + ate + 1))).off.toInt + 1))) := by
  obtain ⟨fold, fold', width, _⟩ := standing
  have next : mem' (w' + ate' + 1) = blinded (blindAddr choice (w + ate + 1)) := by
    rw [ahead' _ (Nat.le_refl _), width]
  have jaJumps : (ebpfs (w + ate + 1)).jumps = true := by
    simp [BpfInsn.jumps, BpfInsn.cls, BpfInsn.op, ja]
  have unblinded : (ebpfs (w + ate + 1)).blindable = false := by
    simp [BpfInsn.blindable, BpfInsn.cls, BpfInsn.op, ja]
  obtain ⟨first, step⟩ := blinds_plain blinds behind unblinded
  obtain ⟨jaLater, _, jaTarget⟩ := jump_target tidy behind jaJumps
  have jaAdjusted := adjusted_target tidy behind jaJumps fits
  have jaIdx : flagIdx (w + ate + 1) ((ebpfs (w + ate + 1)).off.toInt + 1) =
      jumpTarget (ebpfs (w + ate + 1)) (w + ate + 1) := by
    unfold flagIdx
    omega
  have jaIdx' : flagIdx (blindAddr choice (w + ate + 1))
      ((mem' (blindAddr choice (w + ate + 1))).off.toInt + 1) =
        blindAddr choice (jumpTarget (ebpfs (w + ate + 1)) (w + ate + 1)) := by
    rw [← width, next, first, width]
    dsimp only
    unfold flagIdx
    omega
  rw [jaIdx, jaIdx']
  refine ⟨rfl, ?_, ?_, ?_, ?_, fun _ => ?_, by dsimp only; omega, by dsimp only; omega⟩
  · dsimp only
    rw [show w + (ate + 1) + 1 = w + ate + 1 + 1 by omega, step]
    omega
  · exact flags_alike_target marked _
  · intro idx _
    dsimp only
    rw [target_fold, same]
  · intro idx _
    dsimp only
    rw [target_fold, same']
  · dsimp only
    rw [target_fold, target_fold, same, same', fold, fold']
    exact ⟨inside, jumps, width, fun _ _ => ⟨behind, ja⟩, fun jt jf => by simp [jt, jf] at some_⟩

end Branches

include tidy blinds fits ahead ahead'

theorem jmp_alike (k : Word) (inside : w + ate < len) (cls : (ebpfs (w + ate)).cls = 0x05)
    (here : mem (w + ate) = ebpfs (w + ate)) (code : (mem' (w' + ate')).code = (mem (w + ate)).code)
    (imm : (mem' (w' + ate')).imm = (mem (w + ate)).imm)
    (off : (ebpfs (w + ate)).jumps = true →
      (mem' (w' + ate')).off = adjustedOff choice (ebpfs (w + ate)) (w + ate))
    (plain : (ebpfs (w + ate)).op = 0x00 → ate = 0 ∧ ate' = 0) (small : ate < 8 ∧ ate' < 8)
    (folded : Folded) (done : jmpNotCheck mem (w + ate) k ate flags w = .ok folded) :
    ∃ folded', jmpNotCheck mem' (w' + ate') k ate' flags' w' = .ok folded' ∧
      FoldedAlike choice ebpfs len flags flags' w w' folded folded' := by
  have width := standing.width
  rw [here] at code imm
  have op : (mem' (w' + ate')).op = (ebpfs (w + ate)).op := by rw [BpfInsn.op, code]; rfl
  unfold jmpNotCheck at done ⊢
  dsimp only at done ⊢
  rw [here] at done
  rw [op, code, imm]
  by_cases exits : (ebpfs (w + ate)).op = 0x90
  · rw [if_pos exits] at done ⊢
    obtain rfl := Except.ok.inj done
    refine ⟨_, rfl, rfl, width, standing.alike, fun _ _ => rfl, fun _ _ => rfl, ?_,
      by dsimp only; omega, inside⟩
    intro class_
    exact absurd class_ (by simp [cbpfStmt, bpfClass])
  rw [if_neg exits] at done ⊢
  have jumps : (ebpfs (w + ate)).jumps = true := by
    simpa [BpfInsn.jumps, cls] using exits
  by_cases jumpsAlways : (ebpfs (w + ate)).op = 0x00
  · rw [if_pos jumpsAlways] at done ⊢
    obtain rfl := Except.ok.inj done
    obtain ⟨ate0, ate0'⟩ := plain jumpsAlways
    exact ⟨_, rfl, always_alike tidy fits standing inside jumps ate0 ate0' _ ⟨rfl, rfl⟩ (off jumps)⟩
  rw [if_neg jumpsAlways] at done ⊢
  obtain ⟨idx, idx'⟩ := target_idx tidy fits standing inside jumps (off jumps)
  rw [standing.fold, idx] at done
  rw [standing.fold', idx']
  have marked := flags_alike_target standing.alike (jumpTarget (ebpfs (w + ate)) (w + ate))
  have same := target_fold flags (jumpTarget (ebpfs (w + ate)) (w + ate))
  have same' := target_fold flags' (blindAddr choice (jumpTarget (ebpfs (w + ate)) (w + ate)))
  generalize flags.target (jumpTarget (ebpfs (w + ate)) (w + ate)) = hit at done marked same
  generalize flags'.target (blindAddr choice (jumpTarget (ebpfs (w + ate)) (w + ate))) = hit'
    at marked same' ⊢
  have next : mem (w + ate + 1) = ebpfs (w + ate + 1) := ahead _ (Nat.le_refl _)
  have next' : mem' (w' + ate' + 1) = blinded (blindAddr choice (w + ate + 1)) := by
    rw [ahead' _ (Nat.le_refl _), width]
  have behind := behind_inside tidy inside fun code => by
    rw [BpfInsn.op, code] at exits
    exact exits rfl
  have nextCode := blinds_first_code blinds behind 0x05 (Or.inl rfl)
  rw [← next'] at nextCode
  rw [same w, standing.fold, next] at done
  rw [same' w', standing.fold']
  simp only [nextCode]
  rw [width, marked _ behind]
  have branch := branch_alike standing inside jumps small marked same same'
  -- the same test decides on both sides from here on
  split at done
  · next eats =>
      obtain rfl := Except.ok.inj done
      rw [if_pos eats]
      exact ⟨_, rfl, absorbing_alike tidy blinds fits standing ahead' inside jumps small marked same
        same' behind eats.1 _ (Or.inl (by simp [cbpfJmp]))⟩
  · next fasts =>
      rw [if_neg fasts]
      split at done
      · next direct =>
          rw [if_pos direct]
          obtain rfl := Except.ok.inj done
          exact ⟨_, rfl, branch _ (Or.inr rfl) (Or.inl (by simp [cbpfJmp]))⟩
      · next other =>
          rw [if_neg other]
          split at done
          · next jne =>
              rw [if_pos jne]
              obtain rfl := Except.ok.inj done
              exact ⟨_, rfl, branch _ (Or.inl rfl) (Or.inr (by simp [cbpfJmp]))⟩
          · next noJne =>
              rw [if_neg noJne]
              split at done
              · next jle =>
                  rw [if_pos jle]
                  obtain rfl := Except.ok.inj done
                  exact ⟨_, rfl, branch _ (Or.inl rfl) (Or.inr (by simp [cbpfJmp]))⟩
              · next noJle =>
                  rw [if_neg noJle]
                  split at done
                  · next jlt =>
                      rw [if_pos jlt]
                      obtain rfl := Except.ok.inj done
                      exact ⟨_, rfl, branch _ (Or.inl rfl) (Or.inr (by simp [cbpfJmp]))⟩
                  · cases done

end Fold

theorem alu_class {code : BitVec 8} (cls : code &&& 0x07#8 = 0x04 ∨ code &&& 0x07#8 = 0x07) (k : Word) :
    bpfClass (cbpfStmt (code.setWidth 16) k).code ≠ 0x05 := by
  intro jump
  have narrow := congrArg (BitVec.setWidth 8) jump
  simp only [cbpfStmt, bpfClass, BitVec.setWidth_and] at narrow
  rw [BitVec.setWidth_setWidth_of_le _ (by decide), BitVec.setWidth_eq] at narrow
  rcases cls with four | seven
  · rw [show BitVec.setWidth 8 (0x07#16) = 0x07#8 from rfl, four] at narrow
    exact absurd narrow (by decide)
  · rw [show BitVec.setWidth 8 (0x07#16) = 0x07#8 from rfl, seven] at narrow
    exact absurd narrow (by decide)

theorem add_fold (flags : Flags) (w n : Nat) (count : BitVec 3) (start : (flags w).fold.toNat = n)
    (small : n + count.toNat < 8) : ((flags.addFold w count) w).fold.toNat = n + count.toNat := by
  simp [Flags.addFold, start, Nat.mod_eq_of_lt small]

theorem add_fold_other (flags : Flags) (w idx : Nat) (count : BitVec 3) (other : idx ≠ w) :
    (flags.addFold w count) idx = flags idx := by
  simp [Flags.addFold, other]

section Plain

variable {choice : Nat → Blinding} {ebpfs blinded : Nat → BpfInsn} {len : Nat}
variable (tidy : Tidy ebpfs len) (blinds : Blinds choice ebpfs len blinded)
variable (fits : blindAddr choice len ≤ 0x8000)
variable {mem mem' : Nat → BpfInsn} {flags flags' : Flags} {w w' ate' : Nat}
variable (standing : Standing choice len flags flags' w 0 w' ate')
variable (ahead : ∀ j, w + 1 ≤ j → mem j = ebpfs j)
variable (ahead' : ∀ j, w' + ate' + 1 ≤ j → mem' j = blinded j)
variable (behind : w + 1 < len) (small : ate' ≤ 2)

include blinds standing ahead ahead' behind small

theorem ret_k_alike (imm : (mem' (w' + ate')).imm = (mem w).imm) (folded : Folded)
    (done : jmpCheckRetK mem w 0 flags w = .ok folded) :
    ∃ folded', jmpCheckRetK mem' (w' + ate') ate' flags' w' = .ok folded' ∧
      FoldedAlike choice ebpfs len flags flags' w w' folded folded' ∧
      bpfClass folded.1.code ≠ 0x05 := by
  obtain ⟨fold, fold', width, alike⟩ := standing
  simp only [Nat.add_zero] at width
  have next' : mem' (w' + ate' + 1) = blinded (blindAddr choice (w + 1)) := by
    rw [ahead' _ (Nat.le_refl _), width]
  have code := blinds_first_code blinds behind 0x95 (Or.inr rfl)
  rw [← next'] at code
  unfold jmpCheckRetK at done ⊢
  rw [ahead _ (Nat.le_refl _), fold, Nat.add_zero] at done
  rw [imm, fold']
  simp only [code]
  rw [width, alike _ behind]
  split at done
  · next exits =>
      obtain rfl := Except.ok.inj done
      rw [if_pos exits]
      have leaves : (ebpfs (w + 1)).blindable = false := by
        simp [BpfInsn.blindable, BpfInsn.cls, BpfInsn.op, exits.1]
      obtain ⟨_, step⟩ := blinds_plain blinds behind leaves
      have after : w' + (ate' + 1) + 1 = blindAddr choice (w + 1 + 1) := by
        rw [step]
        omega
      exact ⟨_, rfl, ⟨rfl, after, alike, fun _ _ => rfl, fun _ _ => rfl,
        fun jump => absurd jump (by simp [cbpfStmt, bpfClass]), by dsimp only; omega, behind⟩,
        by simp [cbpfStmt, bpfClass]⟩
  · next stays =>
      obtain rfl := Except.ok.inj done
      rw [if_neg stays]
      exact ⟨_, rfl, ⟨rfl, width, alike, fun _ _ => rfl, fun _ _ => rfl,
        fun jump => absurd jump (by simp [cbpfStmt, bpfClass]), by dsimp only; omega,
        Nat.lt_of_succ_lt behind⟩, by simp [cbpfStmt, bpfClass]⟩

theorem div_x_alike (shape : w + 4 < len ∧ (ebpfs (w + 1)).code = 0x55 ∧
      (ebpfs (w + 2)).code = 0xac ∧ (ebpfs (w + 3)).code = 0x95 ∧ (ebpfs (w + 4)).src = 0x08)
    (folded : Folded) (done : jmpCheckDivX mem w 0 flags = .ok folded) :
    ∃ folded', jmpCheckDivX mem' (w' + ate') ate' flags' = .ok folded' ∧
      FoldedAlike choice ebpfs len flags flags' w w' folded folded' := by
  obtain ⟨_, _, width, alike⟩ := standing
  simp only [Nat.add_zero] at width
  obtain ⟨room, test, clear, leave, divide⟩ := shape
  have plain (j : Nat) (inside : j < len) (other : (ebpfs j).blindable = false)
      (above : blindAddr choice (w + 1) ≤ blindAddr choice j) :
      (mem' (blindAddr choice j)).code = (ebpfs j).code ∧
        blindAddr choice (j + 1) = blindAddr choice j + 1 := by
    obtain ⟨first, step⟩ := blinds_plain blinds inside other
    rw [ahead' _ (by omega), first]
    exact ⟨rfl, step⟩
  obtain ⟨clear', afterClear⟩ := plain (w + 2) (by omega)
    (by simp [BpfInsn.blindable, BpfInsn.src, clear]) (blind_addr_le choice (by omega))
  obtain ⟨leave', afterLeave⟩ := plain (w + 3) (by omega)
    (by simp [BpfInsn.blindable, BpfInsn.cls, BpfInsn.op, leave]) (blind_addr_le choice (by omega))
  obtain ⟨_, afterDivide⟩ := plain (w + 4) (by omega) (unblindable_src divide)
    (blind_addr_le choice (by omega))
  -- the test ends where the xor starts, whether it was blinded or not
  have tested : ∃ blindedBy, divXTest mem' (w' + ate') = .ok (blindAddr choice (w + 2), blindedBy) ∧
      blindAddr choice (w + 2) = w' + ate' + 2 + blindedBy ∧ blindedBy ≤ 2 := by
    have step : blindAddr choice (w + 2) = blindAddr choice (w + 1) + (choice (w + 1)).size :=
      blind_addr_succ choice (w + 1)
    have permits := blinds.permits (w + 1) behind
    cases blinding : choice (w + 1) with
    | kept =>
        have first := blinds_kept blinds behind blinding
        rw [blinding, Blinding.size] at step
        refine ⟨0, ?_, by omega, by omega⟩
        rw [divXTest, width, ahead' (blindAddr choice (w + 1)) (by omega), first, if_pos test, step,
          ← width]
    | cleared =>
        rw [blinding] at permits
        rcases permits.1 with code | code <;> rw [test] at code <;> exact absurd code (by decide)
    | split rnd =>
        obtain ⟨first, second, third⟩ := blinds_split blinds behind blinding
        rw [blinding, Blinding.size] at step
        have cls : (ebpfs (w + 1)).cls ≠ 0x04 := by
          rw [BpfInsn.cls, test]
          decide
        simp only [if_neg cls] at first second
        refine ⟨2, ?_, by omega, by omega⟩
        rw [divXTest, width, show w' + ate' + 2 = blindAddr choice (w + 1) + 1 by omega,
          show w' + ate' + 3 = blindAddr choice (w + 1) + 2 by omega,
          ahead' (blindAddr choice (w + 1)) (by omega),
          ahead' (blindAddr choice (w + 1) + 1) (by omega),
          ahead' (blindAddr choice (w + 1) + 2) (by omega), first, second, third, test, step, show w' + ate' + 4 = blindAddr choice (w + 1) + 3 by omega]
        simp
  obtain ⟨blindedBy, tested, place, small'⟩ := tested
  have untested : divXTest mem w = .ok (w + 2, 0) := by
    rw [divXTest, ahead _ (Nat.le_refl _), if_pos test]
  unfold jmpCheckDivX at done ⊢
  simp only [untested, ahead (w + 2) (by omega), ahead (w + 2 + 1) (by omega), clear, leave] at done
  simp only [tested, ← afterClear, clear', leave', clear, leave]
  obtain rfl := Except.ok.inj done
  refine ⟨_, rfl, rfl, ?_, alike, fun _ _ => rfl, fun _ _ => rfl,
    fun jump => absurd jump (by simp [cbpfStmt, bpfClass]), by dsimp only; omega,
    by dsimp only; omega⟩
  dsimp only
  rw [show w + (0 + 0 + 4) + 1 = w + 4 + 1 by omega, afterDivide, afterLeave, afterClear]
  omega

include tidy fits

theorem large_k_alike (imm : (mem' (w' + ate')).imm = (mem w).imm)
    (shape : (ebpfs (w + 1)).src = 0x08 ∧ (ebpfs (w + 1)).op ≠ 0x00 ∧ (ebpfs (w + 1)).op ≠ 0x90)
    (folded : Folded) (done : jmpCheckCmpLargeK mem w 0 flags w = .ok folded) :
    ∃ folded', jmpCheckCmpLargeK mem' (w' + ate') ate' flags' w' = .ok folded' ∧
      FoldedAlike choice ebpfs len flags flags' w w' folded folded' := by
  obtain ⟨fold, fold', width, alike⟩ := standing
  simp only [Nat.add_zero] at width
  obtain ⟨first, step⟩ := blinds_plain blinds behind (unblindable_src shape.1)
  have next' : mem' (w' + ate' + 1) =
      { ebpfs (w + 1) with off := adjustedOff choice (ebpfs (w + 1)) (w + 1) } := by
    rw [ahead' _ (Nat.le_refl _), width, first]
  unfold jmpCheckCmpLargeK at done ⊢
  split at done
  · cases done
  next cls =>
  rw [ahead _ (Nat.le_refl _), Decidable.not_not] at cls
  have cls' : (mem' (w' + ate' + 1)).cls = 0x05 := by
    rw [next']
    exact cls
  rw [if_neg (by simp [cls']), imm]
  have grown : Standing choice len (flags.addFold w 1) (flags'.addFold w' 1) w (0 + 1) w'
      (ate' + 1) := by
    refine ⟨add_fold flags w 0 1 fold (by decide), add_fold flags' w' ate' 1 fold' ?_, ?_, ?_⟩
    · have one : (1 : BitVec 3).toNat = 1 := rfl
      omega
    · rw [show w + (0 + 1) + 1 = w + 1 + 1 by omega, step]
      omega
    · intro j inside
      rw [add_fold_targeted, add_fold_targeted]
      exact alike j inside
  obtain ⟨folded', done', same⟩ := jmp_alike tidy blinds fits grown
    (fun j above => ahead j (by omega)) (fun j above => ahead' j (by omega)) _ behind cls
    (ahead _ (Nat.le_refl _)) (by rw [ahead _ (Nat.le_refl _), ← Nat.add_assoc, next'])
    (by rw [ahead _ (Nat.le_refl _), ← Nat.add_assoc, next'])
    (fun _ => by rw [← Nat.add_assoc, next']) (fun ja => absurd ja shape.2.1) (by omega) folded done
  refine ⟨folded', done', same.filter, same.width, same.alike, ?_, ?_, same.jump, same.small,
    same.room⟩
  · intro idx other
    rw [same.folds idx other, add_fold_other _ _ _ _ other]
  · intro idx other
    rw [same.folds' idx other, add_fold_other _ _ _ _ other]

theorem plain_alike (cls : (mem w).cls = 0x04 ∨ (mem w).cls = 0x07)
    (code : (mem' (w' + ate')).code = (mem w).code) (imm : (mem' (w' + ate')).imm = (mem w).imm)
    (dst : (mem' (w' + ate')).dstReg = (mem w).dstReg)
    (src : (mem w).op = 0xb0 → (mem' (w' + ate')).srcReg = (mem w).srcReg)
    (large : (mem w).op = 0xb0 → (mem w).dstReg = bpfRegTmp → (mem w).srcReg = 0 →
      (ebpfs (w + 1)).src = 0x08 ∧ (ebpfs (w + 1)).op ≠ 0x00 ∧ (ebpfs (w + 1)).op ≠ 0x90)
    (division : (mem w).op = 0xb0 → (mem w).dstReg = bpfRegX → (mem w).srcReg = bpfRegX →
      ¬ ((mem w).cls = 0x07 ∧ (mem w).src = 0x08) →
      w + 4 < len ∧ (ebpfs (w + 1)).code = 0x55 ∧ (ebpfs (w + 2)).code = 0xac ∧
        (ebpfs (w + 3)).code = 0x95 ∧ (ebpfs (w + 4)).src = 0x08)
    (folded : Folded) (done : aluPlain mem w 0 flags w = .ok folded) :
    ∃ folded', aluPlain mem' (w' + ate') ate' flags' w' = .ok folded' ∧
      FoldedAlike choice ebpfs len flags flags' w w' folded folded' := by
  have cls' : (mem' (w' + ate')).cls = (mem w).cls := by rw [BpfInsn.cls, code]; rfl
  have op' : (mem' (w' + ate')).op = (mem w).op := by rw [BpfInsn.op, code]; rfl
  have bit' : (mem' (w' + ate')).src = (mem w).src := by rw [BpfInsn.src, code]; rfl
  -- one instruction stands for one: nothing is folded, ate' only restores the blinding
  have single (filter : Filter) (other : bpfClass filter.code ≠ 0x05) :
      FoldedAlike choice ebpfs len flags flags' w w' (filter, 0, flags) (filter, ate', flags') :=
    ⟨rfl, standing.width, standing.alike, fun _ _ => rfl, fun _ _ => rfl,
      fun jump => absurd jump other, by dsimp only; omega, Nat.lt_of_succ_lt behind⟩
  have noJump : (mem w).cls ≠ 0x05 := by rcases cls with four | seven <;> simp [*]
  unfold aluPlain at done ⊢
  dsimp only at done ⊢
  rw [cls', op', bit', code, imm, dst]
  rw [if_neg noJump] at done ⊢
  by_cases move : (mem w).op = 0xb0
  · rw [src move]
    rw [if_pos move] at done ⊢
    -- the order of the branches is that of alu_insn
    split at done
    · next misc =>
        rw [if_pos misc]
        obtain rfl := Except.ok.inj done
        refine ⟨_, rfl, single _ ?_⟩
        by_cases tax : (mem w).srcReg = bpfRegA <;> simp [tax, cbpfStmt, bpfClass]
    next other =>
    rw [if_neg other]
    split at done
    · next toA =>
        rw [if_pos toA]
        cases ret : jmpCheckRetK mem w 0 flags w with
        | error err =>
            rw [ret] at done
            cases done
        | ok inner =>
            rw [ret] at done
            -- a return is two instructions; its width is handed on
            obtain rfl := Except.ok.inj done
            obtain ⟨inner', ret', same, class_⟩ :=
              ret_k_alike blinds standing ahead ahead' behind small imm inner ret
            rw [ret']
            refine ⟨_, rfl, by rw [same.filter], same.width, same.alike, same.folds, same.folds',
              fun jump => ?_, same.small, same.room⟩
            unfold restoreLen at jump
            split at jump
            · exact absurd jump (by simp [cbpfStmt, bpfClass])
            · exact absurd jump class_
    next notA =>
    rw [if_neg notA]
    split at done
    · next toX =>
        rw [if_pos toX]
        obtain rfl := Except.ok.inj done
        refine ⟨_, rfl, single _ ?_⟩
        rw [restore_len]
        split <;> simp [cbpfStmt, bpfClass]
    next notX =>
    rw [if_neg notX]
    split at done
    · next divides =>
        rw [if_pos divides]
        exact div_x_alike blinds standing ahead ahead' behind small
          (division move divides.1 divides.2 fun misc => other ⟨misc.1, misc.2, Or.inl divides.2⟩)
          folded done
    next notDiv =>
    rw [if_neg notDiv]
    split at done
    · next compares =>
        rw [if_pos compares]
        exact large_k_alike tidy blinds fits standing ahead ahead' behind small imm
          (large move compares.1 compares.2) folded done
    · cases done
  · rw [if_neg move] at done ⊢
    obtain rfl := Except.ok.inj done
    exact ⟨_, rfl, single _ (alu_class cls _)⟩

end Plain

end Ceccomp
