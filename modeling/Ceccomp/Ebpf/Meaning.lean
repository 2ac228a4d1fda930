import Ceccomp.Check.Safety
import Ceccomp.Ebpf.SecondPass

/-!
The filters `ebpf2cbpf` recovers run like the program that was migrated. A group
that is kept is found at the number of kept groups before it; scratch slots are
counted from the other end.
-/

namespace Ceccomp

open Compact (span compact)
open Machine (Next)

/-- The third pass's cursor at bit `i`; nothing writes the bitmap any more. -/
structure Cursor.Reads (cursor : Cursor) (bitmap : Bitmap) (i : Nat) : Prop where
  mapidx : cursor.mapidx = i / 32
  bitmask : cursor.bitmask = 1#32 <<< (i % 32)
  bitset : cursor.bitset = bitmap (i / 32)

theorem cursor_reads_marked {cursor : Cursor} {bitmap : Bitmap} {i : Nat}
    (here : cursor.Reads bitmap i) : cursor.marked = bitmap.has i := by
  rw [Cursor.marked, here.bitmask, and_bit, here.bitset]
  rfl

theorem shift_on (n : Nat) : (1#32 <<< n) <<< 1 = 1#32 <<< (n + 1) := by
  rw [BitVec.shiftLeft_add]

theorem cursor_up {cursor : Cursor} {bitmap : Bitmap} {i : Nat}
    (here : cursor.Reads bitmap i) : (cursor.up bitmap).Reads bitmap (i + 1) := by
  obtain ⟨mapidx, bitmask, bitset⟩ := here
  have bound : i % 32 < 32 := Nat.mod_lt _ (by decide)
  have shifted : cursor.bitmask <<< 1 = 1#32 <<< (i % 32 + 1) := by rw [bitmask, shift_on]
  by_cases last : i % 32 = 31
  · have zero : cursor.bitmask <<< 1 = 0 := by rw [shifted, last]; rfl
    simp only [Cursor.up, zero, ↓reduceIte]
    refine ⟨by dsimp only; omega, ?_, ?_⟩
    · rw [show (i + 1) % 32 = 0 by omega]
      rfl
    · rw [mapidx, show i / 32 + 1 = (i + 1) / 32 by omega]
  · have nonzero : (1#32 <<< (i % 32 + 1)) ≠ 0 := by
      intro zero
      have bit := congrArg (fun w => BitVec.getLsbD w (i % 32 + 1)) zero
      simp at bit
      omega
    simp only [Cursor.up, shifted, if_neg nonzero]
    exact ⟨by dsimp only; omega, by rw [show (i + 1) % 32 = i % 32 + 1 by omega],
      by rw [bitset, show (i + 1) / 32 = i / 32 by omega]⟩

theorem third_pass_compact (reloc : Reloc) (left rp : Nat) (cursor : Cursor)
    (here : cursor.Reads reloc.bitmap rp) :
    thirdPass reloc left rp cursor = compact reloc.bitmap.has reloc.buf left rp := by
  induction left generalizing rp cursor with
  | zero => rfl
  | succ left ih =>
      rw [thirdPass, compact, ih (rp + 1) _ (cursor_up here), cursor_reads_marked here]

/-- What all three passes establish about the recovered filters. -/
structure RecoveredFrom (prog : List Filter) (bitmap : Bitmap) (filters : List Filter) : Prop where
  length : filters.length = span bitmap.has skip (addr prog prog.length)
  bits : GroupBits prog bitmap
  rets : ∀ d, d < prog.length → eaten prog d = true → insnAt prog d = some .retA →
    bitmap.has (addr prog d) = true
  filter : ∀ d insn, insnAt prog d = some insn → bitmap.has (addr prog d) = false →
    ∃ f, filters[span bitmap.has skip (addr prog d)]? = some f ∧ insn.Relocates prog bitmap d f

theorem relocated_recovered {prog : List Filter} (accepted : Accepted prog) {pass : Pass}
    {reloc : Reloc} (done : RelocatedFrom prog pass 0 reloc) :
    RecoveredFrom prog reloc.bitmap
      (compact reloc.bitmap.has reloc.buf (addr prog prog.length - skip) skip) := by
  refine ⟨?_, done.bits, done.rets, ?_⟩
  · rw [Compact.compact_length, Nat.add_sub_cancel' (skip_le_addr prog prog.length)]
  intro d insn here clear
  have inside := insn_inside here
  have start := skip_le_addr prog d
  have less := addr_lt accepted inside (Nat.le_refl _)
  refine ⟨reloc.buf (addr prog d), Compact.compact_get reloc.bitmap.has reloc.buf _ skip
    (addr prog d) clear start (by omega), ?_⟩
  cases eats : eaten prog d with
  | false => exact done.done d insn (Nat.zero_le d) eats here
  | true =>
      -- only a JA is ever given back
      cases d with
      | zero => cases eats
      | succ d =>
          obtain ⟨first, next, _, there, may, _⟩ := eaten_cases eats
          rw [here] at there
          cases there
          cases first <;> simp only [Insn.mayEat, Bool.and_eq_true, beq_iff_eq,
            Bool.false_eq_true] at may
          case jmp =>
            cases insn <;> simp only [Insn.isJa, Bool.false_eq_true, and_false] at may
            exact done.restored (d + 1) _ (Nat.succ_pos d) eats here clear
          all_goals
            obtain ⟨_, rfl⟩ := may
            rw [done.rets (d + 1) inside eats here] at clear
            cases clear

theorem addr_cover (prog : List Filter) (n i : Nat) (above : skip ≤ i) (below : i < addr prog n) :
    ∃ d j, d < n ∧ j < sizeAt prog d ∧ i = addr prog d + j := by
  induction n with
  | zero =>
      rw [addr] at below
      omega
  | succ n ih =>
      rcases Nat.lt_or_ge i (addr prog n) with early | late
      · obtain ⟨d, j, less, small, same⟩ := ih early
        exact ⟨d, j, by omega, small, same⟩
      · rw [addr] at below
        exact ⟨n, i - addr prog n, by omega, by omega, by omega⟩

/-- An instruction of a group that cannot leave the program: it does not jump,
exits, is an emitted jump, or is the zero test inside a division. -/
def StaysInside (addrs : Nat → Nat) (d : Nat) (insn : Insn) (j : Nat) (member : BpfInsn) : Prop :=
  (member.cls ≠ 0x05 ∧ member.cls ≠ 0x06) ∨ member.op = 0x90 ∨
    (∃ t ∈ insn.targets d, member.off = emitJmp addrs t (addrs d + j)) ∨
    (member.off = 2 ∧ j + 3 < insn.groupSize)

theorem move_stays (addrs : Nat → Nat) (d : Nat) (insn : Insn) (j : Nat) (dst : BitVec 4)
    (imm : Word) : StaysInside addrs d insn j (mov32Imm dst imm) :=
  Or.inl ⟨by simp [mov32Imm, BpfInsn.cls], by simp [mov32Imm, BpfInsn.cls]⟩

theorem exit_stays (addrs : Nat → Nat) (d : Nat) (insn : Insn) (j : Nat) :
    StaysInside addrs d insn j exitInsn :=
  Or.inr (Or.inl rfl)

def jmpBody (addrs : Nat → Nat) (d : Nat) (k : Word) (op : JmpOp) (src : Src) (jt jf : BitVec 8) :
    List BpfInsn :=
  match jmpForm op jt jf with
  | .taken => [jumpInsn src k op.bits (emitJmp addrs (d + 1 + jt.toNat) (addrs d + src.fold))]
  | .inverted => [jumpInsn src k op.inverse (emitJmp addrs (d + 1 + jf.toNat) (addrs d + src.fold))]
  | .both =>
      [jumpInsn src k op.bits (emitJmp addrs (d + 1 + jt.toNat) (addrs d + src.fold)),
        ⟨0x05, 0, 0, emitJmp addrs (d + 1 + jf.toNat) (addrs d + src.fold + 1), 0⟩]

theorem group_stays_inside (addrs : Nat → Nat) (d : Nat) (k : Word) (insn : Insn) (j : Nat)
    (member : BpfInsn) (found : (convertInsn addrs d k insn)[j]? = some member) :
    StaysInside addrs d insn j member := by
  cases insn with
  | jmp op src jt jf =>
      -- what stands behind the move of a large immediate
      have body (i : Nat) (place : j = src.fold + i)
          (inner : (jmpBody addrs d k op src jt jf)[i]? = some member) :
          StaysInside addrs d (.jmp op src jt jf) j member := by
        subst place
        have emitted (bits : BitVec 16) (t : Nat) (target : t ∈ (Insn.jmp op src jt jf).targets d) :
            StaysInside addrs d (.jmp op src jt jf) src.fold
              (jumpInsn src k bits (emitJmp addrs t (addrs d + src.fold))) :=
          Or.inr (Or.inr (Or.inl ⟨t, target, jump_insn_off ..⟩))
        have onTrue : d + 1 + jt.toNat ∈ (Insn.jmp op src jt jf).targets d := by simp [Insn.targets]
        have onFalse : d + 1 + jf.toNat ∈ (Insn.jmp op src jt jf).targets d := by simp [Insn.targets]
        unfold jmpBody at inner
        cases form : jmpForm op jt jf <;> simp only [form] at inner <;> rcases i with _ | _ | i
        all_goals
          simp only [List.getElem?_cons_zero, List.getElem?_cons_succ, List.getElem?_nil,
            Option.some.injEq, reduceCtorEq] at inner
        all_goals subst inner
        · exact emitted _ _ onTrue
        · exact emitted _ _ onFalse
        · exact emitted _ _ onTrue
        · exact Or.inr (Or.inr (Or.inl ⟨_, onFalse, rfl⟩))
      cases large : src.large with
      | false =>
          simp only [convertInsn, large] at found
          exact body j (by simp [Src.fold, large]) found
      | true =>
          simp only [convertInsn, large] at found
          rcases j with _ | i
          · obtain rfl := Option.some.inj found
            exact move_stays ..
          · exact body i (by simp only [Src.fold, large, ↓reduceIte]; omega) found
  | alu op src =>
      -- the division jumps over its own exit, never out of the group
      by_cases div : op = .div ∧ src = .x
      · obtain ⟨rfl, rfl⟩ := div
        rcases j with _ | _ | _ | _ | _ | j
        · obtain rfl := Option.some.inj found
          exact Or.inl (by decide)
        · obtain rfl := Option.some.inj found
          exact Or.inr (Or.inr (Or.inr ⟨rfl, by decide⟩))
        · obtain rfl := Option.some.inj found
          exact Or.inl (by decide)
        · obtain rfl := Option.some.inj found
          exact exit_stays ..
        · obtain rfl := Option.some.inj found
          exact Or.inl ⟨by simp [bpfRaw, BpfInsn.cls], by simp [bpfRaw, BpfInsn.cls]⟩
        · simp [convertInsn] at found
      · have single : convertInsn addrs d k (.alu op src) =
            [bpfRaw (0x04 ||| op.bits ||| src.bit) 0 k] := by
          cases op <;> cases src <;> first | rfl | exact absurd ⟨rfl, rfl⟩ div
        rw [single] at found
        rcases j with _ | j
        · obtain rfl := Option.some.inj found
          have bit : src.bit = 0x00 ∨ src.bit = 0x08 := by cases src <;> simp [Src.bit]
          rcases bit with bit | bit <;> rw [bit] <;> cases op <;>
            exact Or.inl ⟨by simp [bpfRaw, BpfInsn.cls, AluOp.bits],
              by simp [bpfRaw, BpfInsn.cls, AluOp.bits]⟩
        · simp at found
  | retK k' =>
      rcases j with _ | _ | j
      · obtain rfl := Option.some.inj found
        exact move_stays ..
      · obtain rfl := Option.some.inj found
        exact exit_stays ..
      · simp [convertInsn] at found
  | ja k' =>
      rcases j with _ | j
      · obtain rfl := Option.some.inj found
        exact Or.inr (Or.inr (Or.inl ⟨_, List.mem_singleton.mpr rfl, rfl⟩))
      · simp [convertInsn] at found
  | retA =>
      rcases j with _ | j
      · obtain rfl := Option.some.inj found
        exact exit_stays ..
      · simp [convertInsn] at found
  | ldAbs k' | ldLen dst | ldImm dst k' | ldMem dst k' | st src k' | neg | tax | txa =>
      rcases j with _ | j
      · obtain rfl := Option.some.inj found
        exact Or.inl ⟨by simp [mov32Imm, bpfRaw, BpfInsn.cls], by simp [mov32Imm, bpfRaw, BpfInsn.cls]⟩
      · simp [convertInsn] at found

theorem migrated_jumps_inside {prog : List Filter} (accepted : Accepted prog)
    {ebpfs : Nat → BpfInsn} (migrated : Migrated prog ebpfs) (i : Nat)
    (below : i < addr prog prog.length) : jumpsInside ebpfs (addr prog prog.length) i = true := by
  unfold jumpsInside
  dsimp only
  split
  · next jumps =>
      rcases Nat.lt_or_ge i skip with early | late
      · have first := migrated_prologue prog ebpfs migrated i early
        simp only [skip] at early
        obtain rfl | rfl | rfl : i = 0 ∨ i = 1 ∨ i = 2 := by omega
        all_goals
          rw [← Option.some.inj first] at jumps
          exact absurd jumps.1 (by decide)
      · obtain ⟨d, j, inside, small, rfl⟩ := addr_cover prog prog.length i late below
        obtain ⟨insn, here⟩ := accepted_insn accepted inside
        obtain ⟨f, _, _, group⟩ := migrated_insn prog ebpfs migrated d insn here
        have small : j < insn.groupSize := by simpa [sizeAt, here] using small
        have next := addr_next here
        have fits := addr_mono prog (show d + 1 ≤ prog.length from inside)
        rw [decide_eq_true_iff]
        rcases group_stays_inside _ _ _ _ j _ (group j small) with plain | leaves | ⟨t, member, off⟩ | ⟨two, room⟩
        · rcases jumps.1 with jmp | jmp32
          · exact absurd jmp plain.1
          · exact absurd jmp32 plain.2
        · exact absurd leaves jumps.2
        · obtain ⟨mask, admissible⟩ := accepted_admissible accepted here
          have bound := admissible_successor d prog.length mask insn t admissible member
          have ahead : d < t := targets_ahead insn d t member
          have short := accepted.short
          have later := addr_mono prog (show d + 1 ≤ t from ahead)
          have less := addr_lt accepted bound (Nat.le_refl _)
          rw [off, emit_jmp_int prog t _ (by omega) (by omega)]
          omega
        · rw [two]
          have two' : (2 : BitVec 16).toInt = 2 := rfl
          rw [two']
          omega
  · rfl

/-- `ebpf2cbpf` of a migrated program asserts nothing that fails, and every value
it puts into a jump field fits. -/
theorem ebpf2cbpf_recovers {prog : List Filter} (accepted : Accepted prog) (nonempty : prog ≠ [])
    {ebpfs : Nat → BpfInsn} (migrated : Migrated prog ebpfs) (buf : Nat → Filter) (trustful : Bool) :
    ∃ recovered bitmap, ebpf2cbpf ebpfs (bpfConvertFilter prog).length buf trustful = .ok recovered ∧
      (∀ value ∈ recovered.stored, value ≤ 255) ∧
      RecoveredFrom prog bitmap recovered.filters := by
  rw [convert_length]
  have inside : (List.range (addr prog prog.length)).find? (fun i =>
      !trustful && !jumpsInside ebpfs (addr prog prog.length) i) = none := by
    rw [List.find?_eq_none]
    intro i member
    rw [migrated_jumps_inside accepted migrated i (List.mem_range.mp member)]
    simp
  obtain ⟨pass, folded, state⟩ :=
    fold_all_migrated accepted migrated buf (if trustful then 1 else addr prog prog.length + 1)
  have done := second_pass_relocated accepted state (state.code ▸ migrated)
    (List.length_pos_iff.mpr nonempty)
  have recovered := relocated_recovered accepted done
  rw [← third_pass_compact _ _ skip ⟨0, 8, _⟩ ⟨rfl, rfl, rfl⟩] at recovered
  rw [ebpf2cbpf, inside, folded]
  exact ⟨_, _, rfl, done.fits, recovered⟩

end Ceccomp
