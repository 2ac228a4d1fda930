import Ceccomp.Ebpf.Unblinded

/-!
A migrated program is tidy, so constant blinding leaves no trace in what is
recovered from it: the hardened form and the plain one yield the same filters.
-/

namespace Ceccomp

structure MemberTidy (group : List BpfInsn) (j : Nat) (member : BpfInsn) : Prop where
  move : (member.cls = 0x04 ∨ member.cls = 0x07) → member.op = 0xb0 →
    member.dstReg ≠ bpfRegAx ∧ (member.src = 0 → member.code = 0xb4 ∧ member.srcReg = 0) ∧
      (member.src ≠ 0 → member.dstReg ≠ bpfRegTmp)
  clear : (member.cls = 0x04 ∨ member.cls = 0x07) → member.op = 0xa0 → member.src = 0x08 →
    member.srcReg = member.dstReg → member.dstReg = bpfRegA ∨ member.dstReg = bpfRegX
  compare : member.code = 0xb4 → member.dstReg = bpfRegTmp →
    ∃ next, group[j + 1]? = some next ∧ next.src = 0x08 ∧ next.op ≠ 0x00 ∧ next.op ≠ 0x90
  divide : member.code = 0xbc → member.dstReg = bpfRegX → member.srcReg = bpfRegX →
    j = 0 ∧ ∃ test clear leave divide, group = [member, test, clear, leave, divide] ∧
      test.code = 0x55 ∧ clear.code = 0xac ∧ leave.code = 0x95 ∧ divide.src = 0x08

theorem tidy_other {group : List BpfInsn} {j : Nat} {member : BpfInsn}
    (other : (member.cls ≠ 0x04 ∧ member.cls ≠ 0x07) ∨ (member.op ≠ 0xb0 ∧ member.op ≠ 0xa0)) :
    MemberTidy group j member := by
  have class_ (cls : member.cls = 0x04 ∨ member.cls = 0x07) :
      member.op ≠ 0xb0 ∧ member.op ≠ 0xa0 := by
    rcases other with ⟨four, seven⟩ | ops
    · rcases cls with cls | cls
      · exact absurd cls four
      · exact absurd cls seven
    · exact ops
  refine ⟨fun cls move => absurd move (class_ cls).1, fun cls xor => absurd xor (class_ cls).2, ?_, ?_⟩
  · intro code
    exact absurd (by rw [BpfInsn.op, code]; rfl) (class_ (Or.inl (by rw [BpfInsn.cls, code]; rfl))).1
  · intro code
    exact absurd (by rw [BpfInsn.op, code]; rfl) (class_ (Or.inl (by rw [BpfInsn.cls, code]; rfl))).1

theorem tidy_mov {group : List BpfInsn} {j : Nat} (dst : Reg) (imm : Word) :
    MemberTidy group j (mov32Imm dst.ebpf imm) := by
  refine ⟨fun _ _ => ⟨?_, fun _ => ⟨rfl, rfl⟩, ?_⟩, ?_, ?_, ?_⟩
  · cases dst <;> simp [mov32Imm, Reg.ebpf, bpfRegA, bpfRegX, bpfRegAx]
  · cases dst <;> simp [mov32Imm, Reg.ebpf, bpfRegA, bpfRegX, bpfRegTmp]
  · intro _ xor
    simp [mov32Imm, BpfInsn.op] at xor
  · intro _ tmp
    cases dst <;> simp [mov32Imm, Reg.ebpf, bpfRegA, bpfRegX, bpfRegTmp] at tmp
  · intro code
    simp [mov32Imm] at code

theorem tidy_misc {group : List BpfInsn} {j : Nat} (dst src : Reg) :
    MemberTidy group j ⟨0xbf, dst.ebpf, src.ebpf, 0, 0⟩ := by
  refine ⟨fun _ _ => ⟨?_, ?_, ?_⟩, ?_, ?_, ?_⟩
  · cases dst <;> simp [Reg.ebpf, bpfRegA, bpfRegX, bpfRegAx]
  · intro bit
    simp [BpfInsn.src] at bit
  · cases dst <;> simp [Reg.ebpf, bpfRegA, bpfRegX, bpfRegTmp]
  · intro _ xor
    simp [BpfInsn.op] at xor
  · intro code
    simp at code
  · intro code
    simp at code

theorem tidy_tmp {group : List BpfInsn} {j : Nat} (imm : Word) {next : BpfInsn}
    (found : group[j + 1]? = some next) (src : next.src = 0x08)
    (op : next.op ≠ 0x00 ∧ next.op ≠ 0x90) : MemberTidy group j (mov32Imm bpfRegTmp imm) := by
  refine ⟨fun _ _ => ⟨by simp [mov32Imm, bpfRegTmp, bpfRegAx], fun _ => ⟨rfl, rfl⟩, ?_⟩, ?_, ?_, ?_⟩
  · intro bit
    simp [mov32Imm, BpfInsn.src] at bit
  · intro _ xor
    simp [mov32Imm, BpfInsn.op] at xor
  · intro _ _
    exact ⟨next, found, src, op⟩
  · intro code
    simp [mov32Imm] at code

theorem tidy_alu {group : List BpfInsn} {j : Nat} (op : AluOp) (src : Src) (k : Word) :
    MemberTidy group j (bpfRaw (0x04 ||| op.bits ||| src.bit) 0 k) := by
  by_cases xor : op = .xor
  · subst xor
    refine ⟨?_, ?_, ?_, ?_⟩
    · intro _ move
      cases src <;> simp [bpfRaw, BpfInsn.op, AluOp.bits, Src.bit] at move
    · intro _ _ _ self
      simp [bpfRaw, bpfRegA, bpfRegX] at self
    · intro code
      cases src <;> simp [bpfRaw, AluOp.bits, Src.bit] at code
    · intro code
      cases src <;> simp [bpfRaw, AluOp.bits, Src.bit] at code
  · refine tidy_other (Or.inr ?_)
    cases op <;> cases src <;>
      first
        | exact absurd rfl xor
        | simp [bpfRaw, BpfInsn.op, AluOp.bits, Src.bit]

theorem jump_insn_large {src : Src} (large : src.large = true) (k : Word) (bits off : BitVec 16)
    (listed : bits ∈ [0x10#16, 0x20, 0x30, 0x40, 0x50, 0xb0, 0xa0]) :
    (jumpInsn src k bits off).src = 0x08 ∧ (jumpInsn src k bits off).op ≠ 0x00 ∧
      (jumpInsn src k bits off).op ≠ 0x90 := by
  simp only [List.mem_cons, List.not_mem_nil, or_false] at listed
  simp only [jumpInsn, large, ↓reduceIte, BpfInsn.src, BpfInsn.op]
  rcases listed with rfl | rfl | rfl | rfl | rfl | rfl | rfl <;> decide

theorem group_tidy (addrs : Nat → Nat) (d : Nat) (k : Word) (insn : Insn) (j : Nat)
    (member : BpfInsn) (found : (convertInsn addrs d k insn)[j]? = some member) :
    MemberTidy (convertInsn addrs d k insn) j member := by
  -- most groups are one instruction
  have alone (only : BpfInsn) (group : convertInsn addrs d k insn = [only])
      (tidy : MemberTidy [only] 0 only) : MemberTidy (convertInsn addrs d k insn) j member := by
    rw [group] at found ⊢
    rcases j with _ | j
    · obtain rfl := Option.some.inj found
      exact tidy
    · simp at found
  cases insn with
  | ldAbs k' => exact alone _ rfl (tidy_other (Or.inl (by simp [BpfInsn.cls])))
  | ldMem dst k' => exact alone _ rfl (tidy_other (Or.inl (by simp [BpfInsn.cls])))
  | st src k' => exact alone _ rfl (tidy_other (Or.inl (by simp [BpfInsn.cls])))
  | ldLen dst => exact alone _ rfl (tidy_mov dst _)
  | ldImm dst k' => exact alone _ rfl (tidy_mov dst _)
  | neg => exact alone _ rfl (tidy_other (Or.inr (by simp [bpfRaw, BpfInsn.op])))
  | tax => exact alone _ rfl (tidy_misc .X .A)
  | txa => exact alone _ rfl (tidy_misc .A .X)
  | ja k' => exact alone _ rfl (tidy_other (Or.inl (by simp [BpfInsn.cls])))
  | retA => exact alone _ rfl (tidy_other (Or.inl (by simp [exitInsn, BpfInsn.cls])))
  | retK k' =>
      rcases j with _ | _ | j
      · obtain rfl := Option.some.inj found
        exact tidy_mov .A _
      · obtain rfl := Option.some.inj found
        exact tidy_other (Or.inl (by simp [exitInsn, BpfInsn.cls]))
      · simp [convertInsn] at found
  | alu op src =>
      -- a division by X stands behind its test for zero
      by_cases div : op = .div ∧ src = .x
      · obtain ⟨rfl, rfl⟩ := div
        rcases j with _ | _ | _ | _ | _ | j
        · obtain rfl := Option.some.inj found
          refine ⟨fun _ _ => ⟨by decide, fun bit => ?_, fun _ => by decide⟩, ?_, ?_, fun _ _ _ =>
            ⟨rfl, _, _, _, _, rfl, rfl, rfl, rfl, by simp [bpfRaw, BpfInsn.src]⟩⟩
          · exact absurd bit (by decide)
          · intro _ xor
            exact absurd xor (by decide)
          · intro code
            exact absurd code (by decide)
        · obtain rfl := Option.some.inj found
          exact tidy_other (Or.inl (by simp [BpfInsn.cls]))
        · obtain rfl := Option.some.inj found
          refine ⟨?_, fun _ _ _ _ => Or.inl rfl, ?_, ?_⟩
          · intro _ move
            exact absurd move (by decide)
          · intro code
            exact absurd code (by decide)
          · intro code
            exact absurd code (by decide)
        · obtain rfl := Option.some.inj found
          exact tidy_other (Or.inl (by simp [exitInsn, BpfInsn.cls]))
        · obtain rfl := Option.some.inj found
          exact tidy_other (Or.inr (by simp [bpfRaw, BpfInsn.op]))
        · simp [convertInsn] at found
      · refine alone (bpfRaw (0x04 ||| op.bits ||| src.bit) 0 k) ?_ (tidy_alu op src k)
        cases op <;> cases src <;> first | rfl | exact absurd ⟨rfl, rfl⟩ div
  | jmp op src jt jf =>
      have jumps (bits off : BitVec 16) (group : List BpfInsn) (i : Nat)
          (known : bits = op.bits ∨ bits = op.inverse) :
          MemberTidy group i (jumpInsn src k bits off) := by
        have cls := jump_insn_class src k op off
        refine tidy_other (Or.inl ?_)
        rcases known with rfl | rfl
        · rw [cls.1]
          decide
        · rw [cls.2]
          decide
      have large (isLarge : src.large = true) (bits off : BitVec 16)
          (known : bits = op.bits ∨ bits = op.inverse) :=
        jump_insn_large isLarge k bits off (by rcases known with rfl | rfl <;> cases op <;> decide)
      have ja (off : BitVec 16) (group : List BpfInsn) (i : Nat) :
          MemberTidy group i ⟨0x05, 0, 0, off, 0⟩ :=
        tidy_other (Or.inl (by simp [BpfInsn.cls]))
      -- a large immediate is moved into `TMP` first
      cases isLarge : src.large with
      | false =>
          simp only [convertInsn, isLarge, Bool.false_eq_true, ↓reduceIte] at found ⊢
          cases form : jmpForm op jt jf <;> simp only [form] at found ⊢ <;>
            rcases j with _ | _ | j <;>
            simp only [List.getElem?_cons_zero, List.getElem?_cons_succ, List.getElem?_nil,
              Option.some.injEq, reduceCtorEq] at found <;> subst found
          · exact jumps _ _ _ _ (Or.inl rfl)
          · exact jumps _ _ _ _ (Or.inr rfl)
          · exact jumps _ _ _ _ (Or.inl rfl)
          · exact ja _ _ _
      | true =>
          simp only [convertInsn, isLarge, ↓reduceIte] at found ⊢
          cases form : jmpForm op jt jf <;> simp only [form] at found ⊢ <;>
            rcases j with _ | _ | _ | j <;>
            simp only [List.getElem?_cons_zero, List.getElem?_cons_succ, List.getElem?_nil,
              Option.some.injEq, reduceCtorEq] at found <;> subst found
          · exact tidy_tmp k rfl (large isLarge _ _ (Or.inl rfl)).1 (large isLarge _ _ (Or.inl rfl)).2
          · exact jumps _ _ _ _ (Or.inl rfl)
          · exact tidy_tmp k rfl (large isLarge _ _ (Or.inr rfl)).1 (large isLarge _ _ (Or.inr rfl)).2
          · exact jumps _ _ _ _ (Or.inr rfl)
          · exact tidy_tmp k rfl (large isLarge _ _ (Or.inl rfl)).1 (large isLarge _ _ (Or.inl rfl)).2
          · exact jumps _ _ _ _ (Or.inl rfl)
          · exact ja _ _ _

theorem group_one_blindable (addrs : Nat → Nat) (d : Nat) (k : Word) (insn : Insn) :
    ∃ only, ∀ (j : Nat) (member : BpfInsn), (convertInsn addrs d k insn)[j]? = some member →
      j ≠ only → member.blindable = false := by
  have alone (member : BpfInsn) (group : convertInsn addrs d k insn = [member]) :
      ∃ only, ∀ (j : Nat) (member : BpfInsn), (convertInsn addrs d k insn)[j]? = some member →
        j ≠ only → member.blindable = false := by
    refine ⟨0, fun j other found apart => ?_⟩
    rw [group] at found
    rcases j with _ | j
    · exact absurd rfl apart
    · simp at found
  cases insn with
  | ldAbs k' | ldMem dst k' | st src k' | ldLen dst | ldImm dst k' | neg | tax | txa | ja k' | retA =>
      exact alone _ rfl
  | retK k' =>
      refine ⟨0, fun j member found apart => ?_⟩
      rcases j with _ | _ | j
      · exact absurd rfl apart
      · obtain rfl := Option.some.inj found
        decide
      · simp [convertInsn] at found
  | alu op src =>
      -- a division by X: only the test for zero has an immediate
      by_cases div : op = .div ∧ src = .x
      · obtain ⟨rfl, rfl⟩ := div
        refine ⟨1, fun j member found apart => ?_⟩
        rcases j with _ | _ | _ | _ | _ | j
        · obtain rfl := Option.some.inj found
          decide
        · exact absurd rfl apart
        · obtain rfl := Option.some.inj found
          decide
        · obtain rfl := Option.some.inj found
          decide
        · obtain rfl := Option.some.inj found
          exact unblindable_src (by simp [bpfRaw, BpfInsn.src])
        · simp [convertInsn] at found
      · refine alone (bpfRaw (0x04 ||| op.bits ||| src.bit) 0 k) ?_
        cases op <;> cases src <;> first | rfl | exact absurd ⟨rfl, rfl⟩ div
  | jmp op src jt jf =>
      have ja (off : BitVec 16) : BpfInsn.blindable ⟨0x05, 0, 0, off, 0⟩ = false := by
        simp [BpfInsn.blindable, BpfInsn.cls, BpfInsn.op]
      have compares (isLarge : src.large = true) (bits off : BitVec 16)
          (known : bits = op.bits ∨ bits = op.inverse) :
          (jumpInsn src k bits off).blindable = false :=
        unblindable_src (jump_insn_large isLarge k bits off
          (by rcases known with rfl | rfl <;> cases op <;> decide)).1
      -- with a large immediate the move is blindable and the comparison is not
      cases isLarge : src.large with
      | false =>
          refine ⟨0, fun j member found apart => ?_⟩
          simp only [convertInsn, isLarge, Bool.false_eq_true, ↓reduceIte] at found
          cases form : jmpForm op jt jf <;> simp only [form] at found <;>
            rcases j with _ | _ | j <;>
            simp only [List.getElem?_cons_zero, List.getElem?_cons_succ, List.getElem?_nil,
              Option.some.injEq, reduceCtorEq] at found
          · exact absurd rfl apart
          · exact absurd rfl apart
          · exact absurd rfl apart
          · subst found
            exact ja _
      | true =>
          refine ⟨0, fun j member found apart => ?_⟩
          simp only [convertInsn, isLarge, ↓reduceIte] at found
          cases form : jmpForm op jt jf <;> simp only [form] at found <;>
            rcases j with _ | _ | _ | j <;>
            simp only [List.getElem?_cons_zero, List.getElem?_cons_succ, List.getElem?_nil,
              Option.some.injEq, reduceCtorEq] at found
          · exact absurd rfl apart
          · subst found
            exact compares isLarge _ _ (Or.inl rfl)
          · exact absurd rfl apart
          · subst found
            exact compares isLarge _ _ (Or.inr rfl)
          · exact absurd rfl apart
          · subst found
            exact compares isLarge _ _ (Or.inl rfl)
          · subst found
            exact ja _

section Migrated

variable {prog : List Filter} (accepted : Accepted prog) {ebpfs : Nat → BpfInsn}
variable (migrated : Migrated prog ebpfs)

include accepted migrated

theorem migrated_member (i : Nat) (above : skip ≤ i) (below : i < addr prog prog.length) :
    ∃ d j insn k, d < prog.length ∧ insnAt prog d = some insn ∧ j < insn.groupSize ∧
      i = addr prog d + j ∧ ∀ n, n < insn.groupSize →
        (convertInsn (addr prog) d k insn)[n]? = some (ebpfs (addr prog d + n)) := by
  obtain ⟨d, j, inside, small, rfl⟩ := addr_cover prog prog.length i above below
  obtain ⟨insn, here⟩ := accepted_insn accepted inside
  obtain ⟨f, _, _, group⟩ := migrated_insn prog ebpfs migrated d insn here
  exact ⟨d, j, insn, f.k, inside, here, by simpa [sizeAt, here] using small, rfl, group⟩

theorem migrated_tidy (_ : prog ≠ []) : Tidy ebpfs (addr prog prog.length) := by
  have start := skip_le_addr prog prog.length
  have first (i : Nat) (small : i < skip) : prologue[i]? = some (ebpfs i) :=
    migrated_prologue prog ebpfs migrated i small
  -- the rules about one member hold of the prologue as well
  have everywhere (i : Nat) (below : i < addr prog prog.length) :
      ∃ group j, group[j]? = some (ebpfs i) ∧ MemberTidy group j (ebpfs i) ∧
        ∀ n, j + n < group.length → i + n < addr prog prog.length ∧
          group[j + n]? = some (ebpfs (i + n)) := by
    rcases Nat.lt_or_ge i skip with early | late
    · refine ⟨[ebpfs i], 0, rfl, ?_, ?_⟩
      · have found := first i early
        simp only [skip] at early
        obtain rfl | rfl | rfl : i = 0 ∨ i = 1 ∨ i = 2 := by omega
        all_goals rw [← Option.some.inj found]
        · exact ⟨fun _ move => absurd move (by decide), fun _ _ _ _ => Or.inl rfl,
            fun code => absurd code (by decide), fun code => absurd code (by decide)⟩
        · exact ⟨fun _ move => absurd move (by decide), fun _ _ _ _ => Or.inr rfl,
            fun code => absurd code (by decide), fun code => absurd code (by decide)⟩
        · exact ⟨fun _ _ => ⟨by decide, fun bit => absurd bit (by decide), fun _ => by decide⟩,
            fun _ xor => absurd xor (by decide), fun code => absurd code (by decide),
            fun code => absurd code (by decide)⟩
      · intro n inside
        obtain rfl : n = 0 := by simpa using inside
        exact ⟨below, rfl⟩
    · obtain ⟨d, j, insn, k, inside, here, small, rfl, group⟩ :=
        migrated_member accepted migrated i late below
      refine ⟨convertInsn (addr prog) d k insn, j, group j small,
        group_tidy _ _ _ _ _ _ (group j small), fun n fits => ?_⟩
      rw [convert_insn_length] at fits
      have next := addr_next here
      have bound := addr_mono prog (show d + 1 ≤ prog.length from inside)
      exact ⟨by omega, by rw [group (j + n) fits, Nat.add_assoc]⟩
  refine ⟨?_, migrated_jumps_inside accepted migrated, ?_, ?_, ?_, ?_, ?_⟩
  · intro i small
    have found := first i small
    simp only [skip] at small start
    refine ⟨by omega, ?_⟩
    obtain rfl | rfl | rfl : i = 0 ∨ i = 1 ∨ i = 2 := by omega
    all_goals
      rw [← Option.some.inj found]
      decide
  · obtain ⟨insn, there, ret⟩ := accepted.ends
    have inside := insn_inside there
    obtain ⟨f, _, _, group⟩ := migrated_insn prog ebpfs migrated _ insn there
    have next := addr_next there
    have size := group_size_pos insn
    rw [show prog.length - 1 + 1 = prog.length by omega] at next
    refine ⟨addr prog (prog.length - 1) + (insn.groupSize - 1), by omega, ?_⟩
    have last := group (insn.groupSize - 1) (by omega)
    rcases ret with rfl | ⟨k, rfl⟩
    · rw [← Option.some.inj last]
      rfl
    · rw [← Option.some.inj last]
      rfl
  · intro i below cls move
    obtain ⟨group, j, _, tidy, _⟩ := everywhere i below
    exact tidy.move cls move
  · intro i below cls xor src self
    obtain ⟨group, j, _, tidy, _⟩ := everywhere i below
    exact tidy.clear cls xor src self
  · intro i below code tmp
    obtain ⟨group, j, _, tidy, next⟩ := everywhere i below
    obtain ⟨other, found, src, op⟩ := tidy.compare code tmp
    have inside := (List.getElem?_eq_some_iff.mp found).1
    rw [(next 1 inside).2] at found
    obtain rfl := Option.some.inj found
    exact ⟨src, op⟩
  · intro i below code dst src
    obtain ⟨group, j, _, tidy, next⟩ := everywhere i below
    obtain ⟨rfl, test, clear, leave, divide, rfl, testCode, clearCode, leaveCode, divideSrc⟩ :=
      tidy.divide code dst src
    obtain ⟨_, one⟩ := next 1 (by simp)
    obtain ⟨_, two⟩ := next 2 (by simp)
    obtain ⟨_, three⟩ := next 3 (by simp)
    obtain ⟨room, four⟩ := next 4 (by simp)
    rw [← Option.some.inj one, ← Option.some.inj two, ← Option.some.inj three,
      ← Option.some.inj four]
    exact ⟨room, testCode, clearCode, leaveCode, divideSrc⟩

theorem blinded_group_size {choice : Nat → Blinding}
    (permits : ∀ i, i < addr prog prog.length → (ebpfs i).Permits (choice i)) (d : Nat)
    (inside : d < prog.length) :
    blindAddr choice (addr prog (d + 1)) ≤ blindAddr choice (addr prog d) + 7 := by
  obtain ⟨insn, here⟩ := accepted_insn accepted inside
  obtain ⟨f, _, _, group⟩ := migrated_insn prog ebpfs migrated d insn here
  obtain ⟨only, others⟩ := group_one_blindable (addr prog) d f.k insn
  have next := addr_next here
  have bound := addr_mono prog (show d + 1 ≤ prog.length from inside)
  have upTo (n : Nat) (le : n ≤ insn.groupSize) :
      blindAddr choice (addr prog d + n) ≤
        blindAddr choice (addr prog d) + n + if only < n then 2 else 0 := by
    induction n with
    | zero => simp
    | succ n ih =>
        have before := ih (by omega)
        have step := blind_addr_succ choice (addr prog d + n)
        have allowed := permits (addr prog d + n) (by omega)
        rw [← Nat.add_assoc, step]
        by_cases same : n = only
        · subst same
          have size : (choice (addr prog d + n)).size ≤ 3 := by
            cases choice (addr prog d + n) <;> simp [Blinding.size]
          rw [if_neg (Nat.lt_irrefl n)] at before
          rw [if_pos (Nat.lt_succ_self n)]
          omega
        · rw [permits_kept allowed (others n _ (group n le) same), Blinding.size]
          split at before <;> split <;> omega
  have whole := upTo insn.groupSize (Nat.le_refl _)
  have atMost := group_size_le insn
  have larger : insn.groupSize + (if only < insn.groupSize then 2 else 0) ≤ 7 := by
    split <;> omega
  rw [next]
  omega

theorem blinded_fits {choice : Nat → Blinding}
    (permits : ∀ i, i < addr prog prog.length → (ebpfs i).Permits (choice i)) :
    blindAddr choice (addr prog prog.length) ≤ 0x8000 := by
  have upTo (d : Nat) (le : d ≤ prog.length) :
      blindAddr choice (addr prog d) ≤ 9 + 7 * d := by
    induction d with
    | zero =>
        have size (i : Nat) : (choice i).size ≤ 3 := by cases choice i <;> simp [Blinding.size]
        change 0 + (choice 0).size + (choice 1).size + (choice 2).size ≤ 9
        have := size 0
        have := size 1
        have := size 2
        omega
    | succ d ih =>
        have before := ih (by omega)
        have group := blinded_group_size accepted migrated permits d le
        omega
  have whole := upTo prog.length (Nat.le_refl _)
  have short := accepted.short
  simp only [bpfMaxInsns] at short
  omega

end Migrated

/-- Blinding leaves no trace: for every program that passes the checks, whatever
instructions the kernel rewrites and whatever it draws for them, `ebpf2cbpf`
returns the same for the hardened program as for the migrated one. -/
theorem hardened_recovered_alike (prog : List Filter) (nonempty : prog ≠ [])
    (short : prog.length ≤ bpfMaxInsns) (clean : CheckClean prog) (ebpfs : Nat → BpfInsn)
    (migrated : Migrated prog ebpfs) (choice : Nat → Blinding) (hardened : Nat → BpfInsn)
    (blinds : Blinds choice ebpfs (bpfConvertFilter prog).length hardened) (buf buf' : Nat → Filter)
    (trustful : Bool) :
    ∃ recovered, ebpf2cbpf ebpfs (bpfConvertFilter prog).length buf trustful = .ok recovered ∧
      ebpf2cbpf hardened (bpfJitBlindConstants choice ebpfs (bpfConvertFilter prog).length).length
        buf' trustful = .ok recovered := by
  obtain ⟨passes, ends⟩ := check_clean_passes prog nonempty clean
  have accepted : Accepted prog := ⟨passes, ends, short⟩
  obtain ⟨recovered, _, returned, _⟩ := ebpf2cbpf_recovers accepted nonempty migrated buf trustful
  refine ⟨recovered, returned, ?_⟩
  rw [convert_length] at blinds returned
  rw [blind_constants_length, convert_length]
  exact ebpf2cbpf_unblinds (migrated_tidy accepted migrated nonempty) blinds
    (blinded_fits accepted migrated blinds.permits) buf buf' trustful returned

/-- The comparison of `allowOne` and its two returns, blinded each its own way. -/
def allowOneChoice (i : Nat) : Blinding :=
  if i = 4 then .split 0xdeadbeef else if i = 5 then .split 1 else if i = 7 then .cleared else .kept

theorem hardened_recovered_alike_allow_one :
    let ebpfs := fun i => (bpfConvertFilter allowOne).getD i default
    ∃ recovered, ebpf2cbpf ebpfs 9 (fun _ => cbpfStmt 0 0) false = .ok recovered ∧
      ebpf2cbpf (fun i => (bpfJitBlindConstants allowOneChoice ebpfs 9).getD i default) 13
        (fun _ => cbpfStmt 0 0) false = .ok recovered :=
  hardened_recovered_alike allowOne (by decide) (by decide) ⟨by decide, by decide⟩ _
    (migrated_list allowOne) allowOneChoice _
    (blinds_list allowOneChoice _ _ (by decide)) (fun _ => cbpfStmt 0 0) (fun _ => cbpfStmt 0 0) false

end Ceccomp
