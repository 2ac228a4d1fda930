import Ceccomp.Check.Accepts
import Ceccomp.Ebpf.Convert

/-!
What the first pass makes of one group of a migrated program. Which filters it
folds away is fixed by the classic program alone: a JA or `RET A` is eaten by
the filter before it unless some earlier jump goes to it. `AtGroup` says what
the arrays hold when the pass stands at the start of a group.
-/

namespace Ceccomp

/-- A program of admissible size that `check_prog` has nothing to say about. -/
structure Accepted (prog : List Filter) : Prop where
  passes : ∀ pc, pc < prog.length → Passes carried prog pc
  ends : EndsWithRet prog
  short : prog.length ≤ bpfMaxInsns

def Insn.flagged (c : Nat) : Insn → List Nat
  | .ja k => [c + 1 + k.toNat]
  | .jmp op _ jt jf =>
      match jmpForm op jt jf with
      | .taken => [c + 1 + jt.toNat]
      | .inverted => [c + 1 + jf.toNat]
      | .both => [c + 1 + jt.toNat, c + 1 + jf.toNat]
  | .ldAbs _ | .ldLen _ | .ldImm .. | .ldMem .. | .st .. | .alu .. | .neg | .tax | .txa | .retA
  | .retK _ => []

def flaggedAt (prog : List Filter) (c : Nat) : List Nat :=
  match insnAt prog c with
  | some insn => insn.flagged c
  | none => []

def Targeted (prog : List Filter) (n t : Nat) : Prop := ∃ c, c < n ∧ t ∈ flaggedAt prog c

instance (prog : List Filter) (n t : Nat) : Decidable (Targeted prog n t) :=
  inferInstanceAs (Decidable (∃ c, c < n ∧ t ∈ flaggedAt prog c))

def Insn.isJa : Insn → Bool
  | .ja _ => true
  | .ldAbs _ | .ldLen _ | .ldImm .. | .ldMem .. | .st .. | .alu .. | .neg | .tax | .txa | .jmp ..
  | .retA | .retK _ => false

/-- A jump with `jf = 0` takes over the JA behind it, a load of A the `RET A`. -/
def Insn.mayEat (insn next : Insn) : Bool :=
  match insn with
  | .jmp _ _ _ jf => jf == 0 && next.isJa
  | .ldImm dst _ | .ldLen dst => dst == .A && next == .retA
  | .ldAbs _ | .ldMem .. | .st .. | .alu .. | .neg | .tax | .txa | .ja _ | .retA | .retK _ => false

def swallows (prog : List Filter) (c : Nat) : Bool :=
  match insnAt prog c, insnAt prog (c + 1) with
  | some insn, some next => insn.mayEat next && !decide (Targeted prog (c + 1) (c + 1))
  | _, _ => false

def eaten (prog : List Filter) : Nat → Bool
  | 0 => false
  | c + 1 => swallows prog c

def nextGroup (prog : List Filter) (c : Nat) : Nat := if swallows prog c then c + 2 else c + 1

/-- The filter the first pass writes for an instruction. Jump distances are
placeholders. -/
def Insn.folded (swallowed : Bool) : Insn → Insn
  | .ldImm .A k => if swallowed then .retK k else if k = seccompDataLen then .ldLen .A else .ldImm .A k
  | .ldImm .X k => if k = seccompDataLen then .ldLen .X else .ldImm .X k
  | .ldLen .A => if swallowed then .retK seccompDataLen else .ldLen .A
  | .ldMem dst k => .ldMem dst k
  | .st src k => .st src k
  | .ja _ => .ja 1
  | .jmp op src jt jf =>
      match jmpForm op jt jf with
      | .taken => .jmp op src 1 (if swallowed then 1 else 0)
      | .inverted => .jmp op src 0 1
      | .both => .jmp op src 1 1
  | .ldAbs k => .ldAbs k
  | .ldLen .X => .ldLen .X
  | .alu op src => .alu op src
  | .neg => .neg
  | .tax => .tax
  | .txa => .txa
  | .retA => .retA
  | .retK k => .retK k

def Insn.fold : Insn → Nat
  | .jmp _ src _ _ => src.fold
  | .ldAbs _ | .ldLen _ | .ldImm .. | .ldMem .. | .st .. | .alu .. | .neg | .tax | .txa | .ja _
  | .retA | .retK _ => 0

theorem accepted_insn {prog : List Filter} (accepted : Accepted prog) {c : Nat}
    (inside : c < prog.length) : ∃ insn, insnAt prog c = some insn := by
  obtain ⟨insn, here, _⟩ := accepted.passes c inside
  exact ⟨insn, here⟩

theorem accepted_admissible {prog : List Filter} (accepted : Accepted prog) {c : Nat} {insn : Insn}
    (here : insnAt prog c = some insn) : ∃ mask, insn.Admissible c prog.length mask := by
  obtain ⟨f, fetched, _⟩ := Option.bind_eq_some_iff.mp here
  obtain ⟨other, found, admissible⟩ := accepted.passes c (List.getElem?_eq_some_iff.mp fetched).1
  rw [here] at found
  cases found
  exact ⟨_, admissible⟩

theorem insn_inside {prog : List Filter} {c : Nat} {insn : Insn}
    (here : insnAt prog c = some insn) : c < prog.length := by
  obtain ⟨f, fetched, _⟩ := Option.bind_eq_some_iff.mp here
  exact (List.getElem?_eq_some_iff.mp fetched).1

theorem group_size_pos (insn : Insn) : 0 < insn.groupSize := by
  cases insn with
  | alu op src => cases op <;> cases src <;> simp [Insn.groupSize]
  | jmp op src jt jf =>
      have body : 0 < (jmpForm op jt jf).size := by cases jmpForm op jt jf <;> decide
      simp only [Insn.groupSize]
      omega
  | _ => simp [Insn.groupSize]

theorem addr_next {prog : List Filter} {c : Nat} {insn : Insn}
    (here : insnAt prog c = some insn) : addr prog (c + 1) = addr prog c + insn.groupSize := by
  simp [addr, sizeAt, here]

theorem addr_lt {prog : List Filter} (accepted : Accepted prog) {c d : Nat} (less : c < d)
    (inside : d ≤ prog.length) : addr prog c < addr prog d := by
  obtain ⟨insn, here⟩ := accepted_insn accepted (show c < prog.length by omega)
  have next := addr_next here
  have later : addr prog (c + 1) ≤ addr prog d := addr_mono prog less
  have positive := group_size_pos insn
  omega

theorem addr_inj {prog : List Filter} (accepted : Accepted prog) {c d : Nat}
    (left : c ≤ prog.length) (right : d ≤ prog.length) (same : addr prog c = addr prog d) :
    c = d := by
  rcases Nat.lt_trichotomy c d with less | equal | greater
  · have := addr_lt accepted less right
    omega
  · exact equal
  · have := addr_lt accepted greater left
    omega

theorem flagged_target (c t : Nat) (insn : Insn) (member : t ∈ insn.flagged c) :
    t ∈ insn.targets c := by
  cases insn with
  | ja k => exact member
  | jmp op src jt jf =>
      simp only [Insn.flagged] at member
      cases form : jmpForm op jt jf <;> simp only [form] at member <;>
        simp only [Insn.targets, List.mem_cons, List.not_mem_nil, or_false] at member ⊢ <;>
        simp [member]
  | _ => simp [Insn.flagged] at member

theorem flagged_inside {prog : List Filter} (accepted : Accepted prog) {c t : Nat}
    (member : t ∈ flaggedAt prog c) : c < t ∧ t < prog.length := by
  unfold flaggedAt at member
  cases here : insnAt prog c with
  | none => simp [here] at member
  | some insn =>
      rw [here] at member
      have target := flagged_target c t insn member
      obtain ⟨mask, admissible⟩ := accepted_admissible accepted here
      cases insn with
      | ja k =>
          simp only [Insn.targets, List.mem_singleton] at target
          simp only [Insn.Admissible] at admissible
          omega
      | jmp op src jt jf =>
          simp only [Insn.targets, List.mem_cons, List.not_mem_nil, or_false] at target
          have near := admissible.1
          have far := admissible.2
          omega
      | _ => simp [Insn.targets] at target

theorem jmp_form_taken (op : JmpOp) (jt jf : BitVec 8) :
    jmpForm op jt jf = .taken ↔ jf = 0 := by
  unfold jmpForm
  split
  · next zero => simp [zero]
  · next other => split <;> exact ⟨nofun, fun zero => absurd zero other⟩

theorem jmp_form_inverted (op : JmpOp) (jt jf : BitVec 8) :
    jmpForm op jt jf = .inverted → jf ≠ 0 ∧ jt = 0 ∧ op ≠ .jset := by
  unfold jmpForm
  split
  · nofun
  · next other =>
      split
      · next inverse => exact fun _ => ⟨other, inverse⟩
      · nofun

theorem jmp_form_both (op : JmpOp) (jt jf : BitVec 8) : jmpForm op jt jf = .both → jf ≠ 0 := by
  unfold jmpForm
  split
  · nofun
  · next other => exact fun _ => other

theorem src_fold_le (src : Src) : src.fold ≤ 1 := by
  unfold Src.fold
  split <;> omega

theorem insn_of_jmp (op : JmpOp) (src : Src) (k : Word) (jt jf : BitVec 8)
    (imm : ∀ v, src = .k v → v = k) :
    (cbpfJmp (0x05 ||| op.bits ||| src.bit) k jt jf).insn? = some (.jmp op src jt jf) := by
  cases src with
  | x =>
      cases op <;> simp [cbpfJmp, Filter.insn?, JmpOp.bits, Src.bit]
  | k v =>
      obtain rfl := imm v rfl
      cases op <;> simp [cbpfJmp, Filter.insn?, JmpOp.bits, Src.bit]

theorem jump_insn_code (src : Src) (k : Word) (bits off : BitVec 16) :
    ∃ bit ∈ [0x00#16, 0x08], (jumpInsn src k bits off).code = (0x05 ||| bits ||| bit).setWidth 8 := by
  unfold jumpInsn
  cases src.large with
  | true => exact ⟨0x08, by simp, rfl⟩
  | false => exact ⟨src.bit, by cases src <;> simp [Src.bit], rfl⟩

theorem jump_insn_class (src : Src) (k : Word) (op : JmpOp) (off : BitVec 16) :
    (jumpInsn src k op.bits off).cls = 0x05 ∧ (jumpInsn src k op.inverse off).cls = 0x05 := by
  obtain ⟨bit, listed, code⟩ := jump_insn_code src k op.bits off
  obtain ⟨bit', listed', code'⟩ := jump_insn_code src k op.inverse off
  simp only [List.mem_cons, List.not_mem_nil, or_false] at listed listed'
  simp only [BpfInsn.cls, code, code']
  constructor
  · rcases listed with rfl | rfl <;> cases op <;> rfl
  · rcases listed' with rfl | rfl <;> cases op <;> rfl

theorem jump_insn_op (src : Src) (k : Word) (op : JmpOp) (off : BitVec 16) :
    (jumpInsn src k op.bits off).op = op.bits.setWidth 8 ∧
      (jumpInsn src k op.inverse off).op = op.inverse.setWidth 8 := by
  obtain ⟨bit, listed, code⟩ := jump_insn_code src k op.bits off
  obtain ⟨bit', listed', code'⟩ := jump_insn_code src k op.inverse off
  simp only [List.mem_cons, List.not_mem_nil, or_false] at listed listed'
  simp only [BpfInsn.op, code, code']
  constructor
  · rcases listed with rfl | rfl <;> cases op <;> rfl
  · rcases listed' with rfl | rfl <;> cases op <;> rfl

theorem jump_insn_off (src : Src) (k : Word) (bits off : BitVec 16) :
    (jumpInsn src k bits off).off = off := by
  unfold jumpInsn
  cases src.large <;> rfl

def largeK (src : Src) (k : Word) : Word := if src.large then k else 0

theorem large_k_nonzero (src : Src) (k : Word) (imm : ∀ v, src = .k v → v = k)
    (large : src.large = true) : largeK src k ≠ 0 := by
  cases src with
  | x => simp [Src.large] at large
  | k v =>
      obtain rfl := imm v rfl
      intro zero
      simp only [largeK, large, ↓reduceIte] at zero
      simp [Src.large, zero] at large

theorem jump_insn_back (src : Src) (k : Word) (bits off : BitVec 16)
    (imm : ∀ v, src = .k v → v = k) (whole : bits ∈ [0x10#16, 0x20, 0x30, 0x40, 0x50, 0xb0, 0xa0]) :
    (if largeK src k ≠ 0 then largeK src k else (jumpInsn src k bits off).imm) = k ∧
    (if largeK src k ≠ 0 then (jumpInsn src k bits off).code &&& ~~~0x08#8
      else (jumpInsn src k bits off).code).setWidth 16 = 0x05 ||| bits ||| src.bit := by
  cases large : src.large with
  | true =>
      have nonzero := large_k_nonzero src k imm large
      rw [if_pos nonzero, if_pos nonzero]
      cases src with
      | x => simp [Src.large] at large
      | k v =>
          refine ⟨by simp [largeK, large], ?_⟩
          simp only [jumpInsn, large, ↓reduceIte, Src.bit]
          simp only [List.mem_cons, List.not_mem_nil, or_false] at whole
          rcases whole with rfl | rfl | rfl | rfl | rfl | rfl | rfl <;> rfl
  | false =>
      have zero : largeK src k = 0 := by simp [largeK, large]
      simp only [zero, ne_eq, not_true_eq_false, ↓reduceIte, jumpInsn, large, Bool.false_eq_true,
        true_and]
      simp only [List.mem_cons, List.not_mem_nil, or_false] at whole
      have bit : src.bit = 0x00 ∨ src.bit = 0x08 := by cases src <;> simp [Src.bit]
      rcases bit with bit | bit <;> rw [bit] <;>
        rcases whole with rfl | rfl | rfl | rfl | rfl | rfl | rfl <;> rfl

theorem jmp_taken (ebpfs : Nat → BpfInsn) (r ate w : Nat) (flags : Flags) (op : JmpOp) (src : Src)
    (k : Word) (off : BitVec 16) (imm : ∀ v, src = .k v → v = k)
    (here : ebpfs r = jumpInsn src k op.bits off) :
    jmpNotCheck ebpfs r (largeK src k) ate flags w =
      let flags := flags.target (flagIdx w ((flags w).fold.toNat + off.toInt + 1))
      let ja := w + (flags w).fold.toNat + 1
      let code := 0x05 ||| op.bits ||| src.bit
      if (ebpfs (r + 1)).code = 0x05 ∧ (flags ja).targeted = false then
        .ok (cbpfJmp code k 1 1, ate + 1,
          flags.target (flagIdx ja ((ebpfs (r + 1)).off.toInt + 1)))
      else .ok (cbpfJmp code k 1 0, ate, flags) := by
  have opcode := (jump_insn_op src k op off).1
  have listed : op.bits ∈ [0x10#16, 0x20, 0x30, 0x40, 0x50, 0xb0, 0xa0] := by cases op <;> decide
  obtain ⟨backK, backCode⟩ := jump_insn_back src k op.bits off imm listed
  simp only [jmpNotCheck, here, jump_insn_off, backK, backCode]
  rw [opcode]
  cases op <;> simp [JmpOp.bits]

theorem jmp_inverted (ebpfs : Nat → BpfInsn) (r ate w : Nat) (flags : Flags) (op : JmpOp)
    (src : Src) (k : Word) (off : BitVec 16) (imm : ∀ v, src = .k v → v = k) (inverse : op ≠ .jset)
    (here : ebpfs r = jumpInsn src k op.inverse off) :
    jmpNotCheck ebpfs r (largeK src k) ate flags w =
      .ok (cbpfJmp (0x05 ||| op.bits ||| src.bit) k 0 1, ate,
        flags.target (flagIdx w ((flags w).fold.toNat + off.toInt + 1))) := by
  have opcode := (jump_insn_op src k op off).2
  have listed : op.inverse ∈ [0x10#16, 0x20, 0x30, 0x40, 0x50, 0xb0, 0xa0] := by
    cases op <;> decide
  obtain ⟨backK, backCode⟩ := jump_insn_back src k op.inverse off imm listed
  simp only [jmpNotCheck, here, jump_insn_off, backK, backCode]
  rw [opcode]
  cases op with
  | jset => exact absurd rfl inverse
  | jeq | jgt | jge => cases src <;> simp [JmpOp.bits, JmpOp.inverse, Src.bit]

def jmpFlags (flags : Flags) (i : Nat) (src : Src) : Flags :=
  if src.large then flags.addFold i 1 else flags

theorem fold_insn_jmp (pass : Pass) (i : Nat) (src : Src) (k : Word) (jump : BpfInsn)
    (move : src.large = true → pass.ebpfs i = mov32Imm bpfRegTmp k)
    (here : pass.ebpfs (i + src.fold) = jump) (cls : jump.cls = 0x05) :
    foldInsn pass i = (jmpNotCheck pass.ebpfs (i + src.fold) (largeK src k) src.fold
      (jmpFlags pass.flags i src) i).map (pass.write i) := by
  cases large : src.large with
  | false =>
      have fold : src.fold = 0 := by simp [Src.fold, large]
      rw [fold, Nat.add_zero] at here
      simp [foldInsn, here, cls, fold, largeK, jmpFlags, large]
  | true =>
      have fold : src.fold = 1 := by simp [Src.fold, large]
      have first := move large
      rw [fold] at here
      have alu : aluInsn pass.ebpfs i pass.flags = (jmpNotCheck pass.ebpfs (i + 1) k 1
          (pass.flags.addFold i 1) i).map (·, pass.ebpfs) := by
        have jumps : jump.code &&& 0x07#8 = 0x05#8 := cls
        simp [aluInsn, aluPlain, first, mov32Imm, BpfInsn.cls, BpfInsn.op, BpfInsn.src,
          bpfRegTmp, bpfRegA, bpfRegX, bpfRegAx, jmpCheckCmpLargeK, here, jumps]
      simp [foldInsn, alu, first, mov32Imm, BpfInsn.cls, largeK, jmpFlags, large, fold]
      cases jmpNotCheck pass.ebpfs (i + 1) k 1 (pass.flags.addFold i 1) i <;> rfl

/-- The flagged indices are the group starts of the given filters. -/
def Marked (prog : List Filter) (flags : Flags) (goals : Nat → Prop) : Prop :=
  ∀ idx, (flags idx).targeted = true ↔ ∃ t, goals t ∧ idx = addr prog t

theorem marked_target {prog : List Filter} {flags : Flags} {goals : Nat → Prop}
    (marked : Marked prog flags goals) (idx t : Nat) (start : idx = addr prog t) :
    Marked prog (flags.target idx) (fun u => goals u ∨ u = t) := by
  intro other
  subst start
  by_cases same : other = addr prog t
  · subst same
    simp only [Flags.target, Function.update_self, true_iff]
    exact ⟨t, Or.inr rfl, rfl⟩
  · simp only [Flags.target, ne_eq, same, not_false_eq_true, Function.update_of_ne, marked other]
    constructor
    · rintro ⟨u, goal, rfl⟩
      exact ⟨u, Or.inl goal, rfl⟩
    · rintro ⟨u, goal | rfl, rfl⟩
      · exact ⟨u, goal, rfl⟩
      · exact absurd rfl same

theorem marked_congr {prog : List Filter} {flags : Flags} {goals others : Nat → Prop}
    (marked : Marked prog flags goals) (same : ∀ t, goals t ↔ others t) :
    Marked prog flags others := by
  intro idx
  simp only [marked idx, same]

theorem target_fold (flags : Flags) (idx other : Nat) :
    ((flags.target idx) other).fold = (flags other).fold := by
  by_cases same : other = idx
  · subst same
    simp [Flags.target]
  · simp [Flags.target, same]

theorem add_fold_targeted (flags : Flags) (idx other : Nat) (count : BitVec 3) :
    ((flags.addFold idx count) other).targeted = (flags other).targeted := by
  by_cases same : other = idx
  · subst same
    simp [Flags.addFold]
  · simp [Flags.addFold, same]

theorem jmp_flags_targeted (flags : Flags) (i : Nat) (src : Src) (idx : Nat) :
    (jmpFlags flags i src idx).targeted = (flags idx).targeted := by
  unfold jmpFlags
  split
  · exact add_fold_targeted flags i idx 1
  · rfl

theorem jmp_flags_fold (flags : Flags) (i : Nat) (src : Src) (start : (flags i).fold.toNat = 0)
    (idx : Nat) : (jmpFlags flags i src idx).fold.toNat =
      if idx = i then src.fold else (flags idx).fold.toNat := by
  unfold jmpFlags Src.fold
  by_cases same : idx = i
  · subst same
    have zero : (flags idx).fold = 0 := BitVec.eq_of_toNat_eq (by simpa using start)
    cases src.large <;> simp [Flags.addFold, zero]
  · cases src.large <;> simp [Flags.addFold, same]

theorem jmp_flags_marked {prog : List Filter} {flags : Flags} {goals : Nat → Prop} {i : Nat}
    (marked : Marked prog flags goals) (src : Src) :
    Marked prog (jmpFlags flags i src) goals := by
  intro idx
  rw [jmp_flags_targeted]
  exact marked idx

theorem targeted_succ (prog : List Filter) (n t : Nat) :
    Targeted prog (n + 1) t ↔ Targeted prog n t ∨ t ∈ flaggedAt prog n := by
  constructor
  · rintro ⟨c, less, member⟩
    rcases Nat.lt_or_ge c n with early | last
    · exact Or.inl ⟨c, early, member⟩
    · obtain rfl : c = n := by omega
      exact Or.inr member
  · rintro (⟨c, less, member⟩ | member)
    · exact ⟨c, by omega, member⟩
    · exact ⟨n, by omega, member⟩

theorem targeted_inside {prog : List Filter} (accepted : Accepted prog) {n t : Nat}
    (targeted : Targeted prog n t) : t < prog.length := by
  obtain ⟨c, _, member⟩ := targeted
  exact (flagged_inside accepted member).2

theorem marked_start {prog : List Filter} (accepted : Accepted prog) {flags : Flags} {n : Nat}
    (marked : Marked prog flags (Targeted prog n)) (t : Nat) (inside : t < prog.length) :
    (flags (addr prog t)).targeted = decide (Targeted prog n t) := by
  rw [Bool.eq_iff_iff, marked, decide_eq_true_iff]
  constructor
  · rintro ⟨u, goal, same⟩
    have bound := targeted_inside accepted goal
    rwa [addr_inj accepted (by omega) (by omega) same]
  · exact fun goal => ⟨t, goal, rfl⟩

theorem marked_inner {prog : List Filter} {flags : Flags}
    {goals : Nat → Prop} (bounded : ∀ t, goals t → t < prog.length)
    (marked : Marked prog flags goals) {c : Nat} {insn : Insn} (here : insnAt prog c = some insn)
    (j : Nat) (positive : 0 < j) (small : j < insn.groupSize) :
    (flags (addr prog c + j)).targeted = false := by
  rw [Bool.eq_false_iff]
  intro set
  obtain ⟨t, goal, same⟩ := (marked _).mp set
  have inside := bounded t goal
  have before := insn_inside here
  have next := addr_next here
  rcases Nat.lt_or_ge c t with later | earlier
  · have := addr_mono prog (show c + 1 ≤ t from later)
    omega
  · have := addr_mono prog earlier
    omega

/-- What the first pass has done when it is about to read the group of `c`. -/
structure AtGroup (prog : List Filter) (ebpfs : Nat → BpfInsn) (c : Nat) (pass : Pass) : Prop where
  code : pass.ebpfs = ebpfs
  marked : Marked prog pass.flags (Targeted prog c)
  ahead : ∀ idx, addr prog c ≤ idx → (pass.flags idx).fold.toNat = 0
  folds : ∀ d insn, d < c → eaten prog d = false → insnAt prog d = some insn →
    (pass.flags (addr prog d)).fold.toNat = insn.fold
  deleted : ∀ idx, pass.bitmap.has idx = true ↔
    idx < addr prog c ∧ ∀ d, d < c → eaten prog d = false → idx ≠ addr prog d
  written : ∀ d insn, d < c → eaten prog d = false → insnAt prog d = some insn →
    (pass.buf (addr prog d)).insn? = some (insn.folded (swallows prog d))
  jas : ∀ d k, d < c → eaten prog d = false → insnAt prog d = some (.ja k) →
    (pass.buf (addr prog d)).jt = 0 ∧ (pass.buf (addr prog d)).jf = 0

structure FoldsTo (prog : List Filter) (c : Nat) (insn : Insn) (before : Flags)
    (folded : Folded) : Prop where
  filter : folded.1.insn? = some (insn.folded (swallows prog c))
  ja : insn.isJa = true → folded.1.jt = 0 ∧ folded.1.jf = 0
  ate : addr prog c + folded.2.1 + 1 = addr prog (nextGroup prog c)
  marked : Marked prog folded.2.2 (Targeted prog (nextGroup prog c))
  fold : ∀ idx, (folded.2.2 idx).fold.toNat =
    if idx = addr prog c then insn.fold else (before idx).fold.toNat

theorem next_group_cases {prog : List Filter} {c d : Nat} (before : d < nextGroup prog c)
    (kept : eaten prog d = false) : d < c ∨ d = c := by
  unfold nextGroup at before
  split at before
  · next swallow =>
      rcases Nat.lt_or_ge d (c + 1) with early | late
      · omega
      · obtain rfl : d = c + 1 := by omega
        simp [eaten, swallow] at kept
  · omega

theorem swallows_inside {prog : List Filter} {c : Nat} (swallow : swallows prog c = true) :
    c + 1 < prog.length := by
  unfold swallows at swallow
  cases next : insnAt prog (c + 1) with
  | some insn => exact insn_inside next
  | none =>
      rw [next] at swallow
      cases insnAt prog c <;> simp at swallow

theorem next_group_le {prog : List Filter} {c : Nat} (inside : c < prog.length) :
    nextGroup prog c ≤ prog.length := by
  unfold nextGroup
  split
  · next swallow =>
      have := swallows_inside swallow
      omega
  · omega

theorem at_group_write {prog : List Filter} (accepted : Accepted prog) {ebpfs : Nat → BpfInsn}
    {c : Nat} {pass : Pass} {insn : Insn} {folded : Folded} (state : AtGroup prog ebpfs c pass)
    (kept : eaten prog c = false) (here : insnAt prog c = some insn)
    (done : FoldsTo prog c insn pass.flags folded) (small : folded.2.1 < 32) :
    AtGroup prog ebpfs (nextGroup prog c) (pass.write (addr prog c) folded).1 := by
  have inside := insn_inside here
  have later : c < nextGroup prog c := by
    unfold nextGroup
    split <;> omega
  have forward := addr_lt accepted later (next_group_le inside)
  have apart (d : Nat) (less : d < c) : addr prog d ≠ addr prog c :=
    Nat.ne_of_lt (addr_lt accepted less (by omega))
  refine ⟨state.code, done.marked, ?_, ?_, ?_, ?_, ?_⟩
  · intro idx beyond
    have before := done.fold idx
    rw [if_neg (by omega), state.ahead idx (by omega)] at before
    exact before
  · intro d other before uneaten there
    have value := done.fold (addr prog d)
    rcases next_group_cases before uneaten with early | rfl
    · rw [if_neg (apart d early), state.folds d other early uneaten there] at value
      exact value
    · rw [here] at there
      cases there
      simpa [Pass.write] using value
  -- the marks are those of before and the cells this group eats
  · intro idx
    simp only [Pass.write]
    rw [has_setbits _ _ _ _ small, Bool.or_eq_true, state.deleted, decide_eq_true_iff]
    have width := done.ate
    constructor
    · rintro (⟨below, starts⟩ | ⟨low, high⟩)
      · refine ⟨by omega, ?_⟩
        intro d before uneaten
        rcases next_group_cases before uneaten with early | rfl
        · exact starts d early uneaten
        · omega
      · refine ⟨by omega, ?_⟩
        intro d before uneaten
        rcases next_group_cases before uneaten with early | rfl
        · have := addr_lt accepted early (Nat.le_of_lt inside)
          omega
        · omega
    · rintro ⟨below, starts⟩
      rcases Nat.lt_or_ge idx (addr prog c) with early | late
      · exact Or.inl ⟨early, fun d less uneaten => starts d (by omega) uneaten⟩
      · have different := starts c later kept
        exact Or.inr ⟨by omega, by omega⟩
  · intro d other before uneaten there
    rcases next_group_cases before uneaten with early | rfl
    · simpa [Pass.write, apart d early] using state.written d other early uneaten there
    · rw [here] at there
      cases there
      simpa [Pass.write] using done.filter
  · intro d k before uneaten there
    rcases next_group_cases before uneaten with early | rfl
    · simpa [Pass.write, apart d early] using state.jas d k early uneaten there
    · rw [here] at there
      cases there
      simpa [Pass.write] using done.ja rfl

end Ceccomp
