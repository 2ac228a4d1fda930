import Ceccomp.Ebpf.Simulation

/-!
`check_prog` on the filters that `ebpf2cbpf` recovers. What it accepted before the kernel
migrated it, it accepts again.
-/

namespace Ceccomp

open Compact (span)

section Masks

theorem valid_after_bit (insn : Insn) (mask : BitVec 16) (slot : Nat) :
    (insn.validAfter mask).getLsbD slot = true ↔
      mask.getLsbD slot = true ∨ (insn.validAfter 0).getLsbD slot = true := by
  cases insn with
  | st src k => simp [Insn.validAfter]
  | ja k | jmp op src jt jf =>
      constructor
      · exact Or.inr
      · rintro (known | all)
        · have small : slot < 16 := BitVec.lt_of_getLsbD known
          have ones : (0xffff#16 : BitVec 16) = BitVec.allOnes 16 := by decide
          change (0xffff#16).getLsbD slot = true
          rw [ones, BitVec.getLsbD_allOnes, decide_eq_true small]
        · exact all
  | ldAbs _ | ldLen _ | ldImm _ _ | ldMem _ _ | alu _ _ | neg | tax | txa | retA | retK _ =>
      simp [Insn.validAfter]

/-- `mem_valid` is never lowered: it knows the slots that any filter before stores, and all
of them behind the first jump. -/
theorem carried_mask_iff (prog : List Filter) (pc slot : Nat) :
    (masksAt carried prog pc).memValid.getLsbD slot = true ↔
      ∃ c insn, c < pc ∧ insnAt prog c = some insn ∧
        (insn.validAfter 0).getLsbD slot = true := by
  change (masksBefore carried prog pc).memValid.getLsbD slot = true ↔ _
  induction pc with
  | zero => simp [masksBefore, Masks.start]
  | succ pc ih =>
      have split : (∃ c insn, c < pc + 1 ∧ insnAt prog c = some insn ∧
            (insn.validAfter 0).getLsbD slot = true) ↔
          (∃ c insn, c < pc ∧ insnAt prog c = some insn ∧
            (insn.validAfter 0).getLsbD slot = true) ∨
          ∃ insn, insnAt prog pc = some insn ∧ (insn.validAfter 0).getLsbD slot = true := by
        constructor
        · rintro ⟨c, insn, below, here, adds⟩
          rcases Nat.lt_succ_iff_lt_or_eq.mp below with earlier | rfl
          · exact Or.inl ⟨c, insn, earlier, here, adds⟩
          · exact Or.inr ⟨insn, here, adds⟩
        · rintro (⟨c, insn, below, here, adds⟩ | ⟨insn, here, adds⟩)
          · exact ⟨c, insn, Nat.lt_succ_of_lt below, here, adds⟩
          · exact ⟨pc, insn, Nat.lt_succ_self pc, here, adds⟩
      rw [split, ← ih, masksBefore]
      cases here : insnAt prog pc with
      | none => simp
      | some insn =>
          have step := valid_after_bit insn (masksBefore carried prog pc).memValid slot
          simpa [Insn.flow, Masks.entered, carried] using step

end Masks

theorem folded_valid_after (swallowed : Bool) (insn : Insn) :
    (insn.folded swallowed).validAfter 0 = insn.validAfter 0 := by
  cases insn with
  | ldImm dst k => cases dst <;> simp only [Insn.folded] <;> split <;> first | rfl | (split <;> rfl)
  | ldLen dst =>
      cases dst with
      | A => cases swallowed <;> rfl
      | X => rfl
  | jmp op src jt jf =>
      simp only [Insn.folded]
      split <;> rfl
  | ldAbs _ | ldMem _ _ | st _ _ | alu _ _ | neg | tax | txa | ja _ | retA | retK _ => rfl

theorem folded_admissible (swallowed : Bool) (insn : Insn) (still : insn.isJa = false)
    (other : ∀ op src jt jf, insn ≠ .jmp op src jt jf) (pc flen pc' flen' : Nat)
    (mask mask' : BitVec 16)
    (known : ∀ slot, mask.getLsbD slot = true → mask'.getLsbD slot = true)
    (admissible : insn.Admissible pc flen mask) :
    (insn.folded swallowed).Admissible pc' flen' mask' := by
  cases insn with
  | ja k => cases still
  | jmp op src jt jf => exact absurd rfl (other op src jt jf)
  | ldImm dst k =>
      cases dst <;> simp only [Insn.folded] <;> split <;> first | trivial | (split <;> trivial)
  | ldLen dst =>
      cases dst with
      | A => cases swallowed <;> trivial
      | X => trivial
  | ldMem dst k => exact admissible_mono pc flen _ mask mask' known admissible
  | alu op src => cases op <;> cases src <;> exact admissible
  | ldAbs _ | st _ _ | neg | tax | txa | retA | retK _ => exact admissible

section Recheck

variable {prog : List Filter} (accepted : Accepted prog) {bitmap : Bitmap} {filters : List Filter}
variable (recovered : RecoveredFrom prog bitmap filters)

include accepted recovered

theorem position_succ {c : Nat} (inside : c < prog.length) :
    position prog bitmap (c + 1) =
      position prog bitmap c + if bitmap.has (addr prog c) = false then 1 else 0 := by
  unfold position
  rw [Compact.span_split bitmap.has (skip_le_addr prog c) (addr_mono prog (Nat.le_succ c)),
    span_group accepted recovered.bits inside]

omit accepted recovered in
theorem position_mono {c d : Nat} (le : c ≤ d) : position prog bitmap c ≤ position prog bitmap d := by
  unfold position
  rw [Compact.span_split bitmap.has (skip_le_addr prog c) (addr_mono prog le)]
  exact Nat.le_add_right _ _

theorem position_lt {c d : Nat} (less : c < d) (inside : d ≤ prog.length)
    (clear : bitmap.has (addr prog c) = false) :
    position prog bitmap c < position prog bitmap d := by
  have next := position_next accepted recovered (Nat.lt_of_lt_of_le less inside) clear
  have later : position prog bitmap (c + 1) ≤ position prog bitmap d := position_mono less
  omega

theorem position_inside {c : Nat} (inside : c < prog.length)
    (clear : bitmap.has (addr prog c) = false) : position prog bitmap c < filters.length :=
  recovered.length ▸ position_lt accepted recovered inside (Nat.le_refl _) clear

theorem position_onto (n : Nat) (bound : n ≤ prog.length) (q : Nat)
    (below : q < position prog bitmap n) :
    ∃ c, c < n ∧ bitmap.has (addr prog c) = false ∧ position prog bitmap c = q := by
  induction n with
  | zero =>
      have none_ : position prog bitmap 0 = 0 := Compact.span_self ..
      omega
  | succ n ih =>
      by_cases early : q < position prog bitmap n
      · obtain ⟨c, less, clear, same⟩ := ih (Nat.le_of_succ_le bound) early
        exact ⟨c, Nat.lt_succ_of_lt less, clear, same⟩
      · rw [position_succ accepted recovered bound] at below
        split at below
        · next clear => exact ⟨n, Nat.lt_succ_self n, clear, by omega⟩
        · exact absurd below early

omit accepted in
theorem unkept_cases {c : Nat} {insn : Insn} (here : insnAt prog c = some insn)
    (marked : bitmap.has (addr prog c) ≠ false) :
    ∃ d first, c = d + 1 ∧ insnAt prog d = some first ∧ first.mayEat insn = true ∧
      swallows prog d = true ∧ bitmap.has (addr prog d) = false := by
  have inside := insn_inside here
  have eats : eaten prog c = true := by
    cases uneaten : eaten prog c with
    | true => rfl
    | false => exact absurd (recovered.bits.starts c inside uneaten) marked
  cases c with
  | zero => cases eats
  | succ d =>
      obtain ⟨first, next, before, there, may, _⟩ := eaten_cases eats
      rw [here] at there
      cases there
      refine ⟨d, first, rfl, before, may, eats, ?_⟩
      apply recovered.bits.starts d (Nat.lt_of_succ_lt inside)
      cases again : eaten prog d with
      | false => rfl
      | true =>
          have stays := eaten_not_swallows again
          rw [show swallows prog d = true from eats] at stays
          cases stays

omit accepted in
theorem recovered_adds {c : Nat} {insn : Insn} (here : insnAt prog c = some insn)
    (clear : bitmap.has (addr prog c) = false) :
    ∃ again, insnAt filters (position prog bitmap c) = some again ∧
      again.validAfter 0 = insn.validAfter 0 := by
  obtain ⟨f, found, relocates⟩ := recovered.filter c insn here clear
  have meaning (again : Insn) (decoded : f.insn? = some again) :
      insnAt filters (position prog bitmap c) = some again := by
    rw [insnAt, position, found]
    exact decoded
  cases insn with
  | ja k =>
      obtain ⟨k', decoded, _⟩ := relocates
      exact ⟨_, meaning _ decoded, rfl⟩
  | jmp op src jt jf =>
      obtain ⟨jt', jf', decoded, _⟩ := relocates
      exact ⟨_, meaning _ decoded, rfl⟩
  | ldAbs k | ldLen dst | ldImm dst k | ldMem dst k | st src k | alu op src | neg | tax | txa
  | retA | retK k => exact ⟨_, meaning _ relocates, folded_valid_after _ _⟩

theorem recovered_mask {c : Nat} (inside : c ≤ prog.length) (slot : Nat)
    (known : (masksAt carried prog c).memValid.getLsbD slot = true) :
    (masksAt carried filters (position prog bitmap c)).memValid.getLsbD slot = true := by
  rw [carried_mask_iff] at known ⊢
  obtain ⟨e, insn, before, here, adds⟩ := known
  by_cases clear : bitmap.has (addr prog e) = false
  · obtain ⟨again, there, same⟩ := recovered_adds recovered here clear
    exact ⟨_, again, position_lt accepted recovered before inside clear, there, by rw [same]; exact adds⟩
  · obtain ⟨d, first, rfl, there, may, _, kept⟩ := unkept_cases recovered here clear
    obtain ⟨again, found, same⟩ := recovered_adds recovered there kept
    refine ⟨_, again, position_lt accepted recovered (by omega) inside kept, found, ?_⟩
    rw [same]
    cases first <;> simp only [Insn.mayEat, Bool.and_eq_true, beq_iff_eq, Bool.false_eq_true] at may
    case jmp op src jt jf =>
      -- both are jumps
      cases insn <;> simp only [Insn.isJa, Bool.false_eq_true, and_false] at may
      exact adds
    all_goals
      -- `RET A` adds nothing
      obtain ⟨_, rfl⟩ := may
      simp [Insn.validAfter] at adds

theorem recovered_passes (q : Nat) (below : q < filters.length) : Passes carried filters q := by
  rw [recovered.length] at below
  -- the groups that are kept stand in the recovered program in their order
  obtain ⟨c, inside, clear, rfl⟩ := position_onto accepted recovered prog.length (Nat.le_refl _) q below
  obtain ⟨insn, here, admissible⟩ := accepted.passes c inside
  obtain ⟨f, found, relocates⟩ := recovered.filter c insn here clear
  have known := recovered_mask accepted recovered (Nat.le_of_lt inside)
  have meaning (again : Insn) (decoded : f.insn? = some again) :
      insnAt filters (position prog bitmap c) = some again := by
    rw [insnAt, position, found]
    exact decoded
  have reach {t : Nat} (ahead : c < t) (bound : t < prog.length)
      (kept : bitmap.has (addr prog t) = false) :
      position prog bitmap c + 1 + gap prog bitmap c t < filters.length := by
    rw [← position_gap accepted ahead (Nat.le_of_lt bound) clear]
    exact position_inside accepted recovered bound kept
  cases insn with
  | ja k =>
      obtain ⟨k', decoded, distance⟩ := relocates
      have kept := flagged_kept accepted recovered
        (show c + 1 + k.toNat ∈ flaggedAt prog c by simp [flaggedAt, here, Insn.flagged])
      have far := reach (show c < c + 1 + k.toNat by omega) kept.1 kept.2
      refine ⟨_, meaning _ decoded, ?_⟩
      simp only [Insn.Admissible, distance]
      omega
  | jmp op src jt jf =>
      obtain ⟨jt', jf', decoded, onTrue, onFalse⟩ := relocates
      obtain ⟨trueIn, falseIn⟩ := admissible
      have taken := reach (show c < c + 1 + jt.toNat by omega) (by omega)
        (true_kept accepted recovered inside here)
      have falls : position prog bitmap c + 1 + gap prog bitmap c (falseTarget prog bitmap c jf) <
          filters.length := by
        unfold falseTarget
        split
        -- the false branch may go through a ja the translation swallowed
        · next eats =>
            obtain ⟨k, there, _⟩ := swallowing_jump here eats.1
            have kept := flagged_kept accepted recovered
              (show c + 1 + 1 + k.toNat ∈ flaggedAt prog (c + 1) by
                simp [flaggedAt, there, Insn.flagged])
            rw [jaTarget, there]
            exact reach (show c < c + 1 + 1 + k.toNat by omega) kept.1 kept.2
        · next runs =>
            exact reach (show c < c + 1 + jf.toNat by omega) (by omega)
              (false_kept accepted recovered inside here runs)
      refine ⟨_, meaning _ decoded, ?_⟩
      simp only [Insn.Admissible, onTrue, onFalse]
      omega
  | ldAbs k | ldLen dst | ldImm dst k | ldMem dst k | st src k | alu op src | neg | tax | txa
  | retA | retK k =>
      exact ⟨_, meaning _ relocates,
        folded_admissible _ _ rfl (by simp) c prog.length _ _ _ _ known admissible⟩

theorem recovered_ends (nonempty : prog ≠ []) : EndsWithRet filters := by
  obtain ⟨insn, here, returns⟩ := accepted.ends
  have length := List.length_pos_iff.mpr nonempty
  have last {c : Nat} (clear : bitmap.has (addr prog c) = false) (again : Insn)
      (end_ : position prog bitmap prog.length = position prog bitmap c + 1)
      (found : ∃ f, filters[position prog bitmap c]? = some f ∧ f.insn? = some again)
      (ret : again = .retA ∨ ∃ k, again = .retK k) : EndsWithRet filters := by
    obtain ⟨f, there, decoded⟩ := found
    refine ⟨again, ?_, ret⟩
    have final : filters.length - 1 = position prog bitmap c := by
      have whole : filters.length = position prog bitmap prog.length := recovered.length
      omega
    rw [final, insnAt, there]
    exact decoded
  have whole := position_succ accepted recovered (show prog.length - 1 < prog.length by omega)
  rw [show prog.length - 1 + 1 = prog.length by omega] at whole
  by_cases clear : bitmap.has (addr prog (prog.length - 1)) = false
  · rw [if_pos clear] at whole
    obtain ⟨f, found, relocates⟩ := recovered.filter _ insn here clear
    rcases returns with rfl | ⟨k, rfl⟩
    · exact last clear _ whole ⟨f, found, relocates⟩ (Or.inl rfl)
    · exact last clear _ whole ⟨f, found, relocates⟩ (Or.inr ⟨k, rfl⟩)
  · obtain ⟨d, first, same, there, may, eats, kept⟩ := unkept_cases recovered here clear
    have other : ∀ op src jt jf, first ≠ .jmp op src jt jf := by
      rintro op src jt jf rfl
      rcases returns with rfl | ⟨k, rfl⟩ <;> simp [Insn.mayEat, Insn.isJa] at may
    obtain ⟨k, _, folded, _⟩ := swallowing_load there eats other
    obtain ⟨f, found, relocates⟩ := recovered.filter d first there kept
    have end_ : position prog bitmap prog.length = position prog bitmap d + 1 := by
      have before := position_next accepted recovered (insn_inside there) kept
      rw [if_neg clear, same] at whole
      omega
    refine last kept (.retK k) end_ ⟨f, found, ?_⟩ (Or.inr ⟨k, rfl⟩)
    rw [← folded, ← eats]
    cases first with
    | ja k => simp [Insn.mayEat] at may
    | jmp op src jt jf => exact absurd rfl (other op src jt jf)
    | ldAbs k | ldLen dst | ldImm dst k | ldMem dst k | st src k | alu op src | neg | tax | txa
    | retA | retK k => exact relocates

theorem recovered_accepted (nonempty : prog ≠ []) :
    filters ≠ [] ∧ filters.length ≤ prog.length ∧ CheckClean filters := by
  have passes := recovered_passes accepted recovered
  have ends := recovered_ends accepted recovered nonempty
  have some_ : filters ≠ [] := by
    rintro rfl
    obtain ⟨insn, here, _⟩ := ends
    cases here
  refine ⟨some_, ?_, (check_prog_clean_iff carried filters some_).mpr ⟨passes, ends⟩⟩
  have bound := span_groups_le accepted recovered.bits (Nat.zero_le prog.length) (Nat.le_refl _)
  rw [recovered.length]
  exact bound

end Recheck

end Ceccomp
