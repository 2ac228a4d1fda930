import Ceccomp.Ebpf.BlindPass

/-!
The second pass counts only what is kept, so the instructions blinding put in
between do not change a distance, and the third pass drops them. Blinded code is
recovered like the code before blinding.
-/

namespace Ceccomp

open Compact (span compact)
open Spread (Spreads)

/-- Both second passes have relocated the same filters the same way. -/
structure RelocAlike (choice : Nat → Blinding) (len : Nat) (reloc reloc' : Reloc) : Prop where
  bits : Spreads (fun j => (choice j).size) len reloc.bitmap.has reloc'.bitmap.has
  buf : ∀ j, j < len → reloc.bitmap.has j = false → reloc'.buf (blindAddr choice j) = reloc.buf j
  stored : reloc'.stored = reloc.stored

theorem spreads_clearbit {choice : Nat → Blinding} {len : Nat} {bitmap bitmap' : Bitmap}
    (bits : Spreads (fun j => (choice j).size) len bitmap.has bitmap'.has) (idx : Nat) :
    Spreads (fun j => (choice j).size) len (clearbit bitmap idx).has
      (clearbit bitmap' (blindAddr choice idx)).has := by
  constructor
  · intro j below
    change (clearbit bitmap' _).has (blindAddr choice j) = _
    rw [has_clearbit, has_clearbit, show bitmap'.has (blindAddr choice j) = bitmap.has j from
      bits.starts j below]
    congr 1
    exact decide_eq_decide.mpr
      (not_congr ⟨fun same => blind_addr_inj choice same, fun same => by rw [same]⟩)
  · intro j below n positive room
    change (clearbit bitmap' _).has (blindAddr choice j + n) = true
    have apart : blindAddr choice j + n ≠ blindAddr choice idx := by
      intro same
      rcases Nat.lt_or_ge j idx with less | reached
      · have later := blind_addr_le choice (show j + 1 ≤ idx from less)
        rw [blind_addr_succ] at later
        omega
      · have earlier := blind_addr_le choice reached
        omega
    rw [has_clearbit, show bitmap'.has (blindAddr choice j + n) = true from
      bits.inner j below n positive room]
    simp [apart]

theorem blind_span {choice : Nat → Blinding} {len : Nat} {bitmap bitmap' : Bitmap}
    (bits : Spreads (fun j => (choice j).size) len bitmap.has bitmap'.has) {i t : Nat}
    (le : i ≤ t) (below : t ≤ len) :
    span bitmap'.has (blindAddr choice i) (blindAddr choice t) = span bitmap.has i t :=
  Spread.span_place (blind_roomy choice len) bits le below

theorem distance_span (pass : Pass) (bitmap : Bitmap) (i t : Nat) (ahead : i < t)
    (small : t ≤ 0x8000) (off : ((pass.ebpfs (i + (pass.flags i).fold.toNat)).off.toInt : Int) =
      t - (i + (pass.flags i).fold.toNat) - 1) :
    distance pass bitmap i = u32 ((span bitmap.has i t : Int) - 1) := by
  have counted := count_span bitmap i t (Nat.le_of_lt ahead)
  unfold distance
  dsimp only
  rw [off]
  generalize (pass.flags i).fold.toNat = fold at *
  rw [u32_of_nat (i + fold + 1 + (t - (i + fold) - 1)) t (by omega) (by omega)]
  congr 1
  omega

theorem ja_distance_kept (pass : Pass) (bitmap : Bitmap) (idx t : Nat) (ahead : idx < t)
    (small : t ≤ 0x8000) (off : ((pass.ebpfs idx).off.toInt : Int) = t - idx - 1) :
    jaDistance pass bitmap idx = u32 (span bitmap.has idx t) := by
  have counted := count_span bitmap idx t (Nat.le_of_lt ahead)
  unfold jaDistance
  dsimp only
  rw [off, u32_of_nat (idx + (t - idx - 1) + 1) t (by omega) (by omega)]
  congr 1
  omega

theorem jump_over_span (pass : Pass) (bitmap : Bitmap) (i t : Nat) (ahead : i < t)
    (small : t ≤ 0x8000) (fold : (pass.flags i).fold.toNat = 0)
    (off : ((pass.ebpfs i).off.toInt : Int) = t - i - 1) :
    jumpOver pass bitmap i = BitVec.ofInt 32 ((span bitmap.has i t : Int) - 1) := by
  have counted := count_span bitmap i t (Nat.le_of_lt ahead)
  unfold jumpOver
  dsimp only
  rw [fold, Nat.add_zero, off, u32_of_nat (i + 1 + (t - i - 1)) t (by omega) (by omega)]
  congr 1
  omega

section Relocate

variable {choice : Nat → Blinding} {ebpfs blinded : Nat → BpfInsn} {len : Nat}
variable (tidy : Tidy ebpfs len) (blinds : Blinds choice ebpfs len blinded)
variable (fits : blindAddr choice len ≤ 0x8000)

include blinds in
theorem blinded_last_off {r : Nat} (inside : r < len) (jumps : (ebpfs r).jumps = true) :
    (blinded (blindAddr choice (r + 1) - 1)).off = adjustedOff choice (ebpfs r) r := by
  have step := blind_addr_succ choice r
  have permits := blinds.permits r inside
  cases blinding : choice r with
  | kept =>
      rw [step, blinding, Blinding.size, Nat.add_sub_cancel, blinds_kept blinds inside blinding]
  | cleared =>
      rw [blinding] at permits
      rcases permits.1 with code | code <;>
        simp [BpfInsn.jumps, BpfInsn.cls, code] at jumps
  | split rnd =>
      rw [step, blinding, Blinding.size, show blindAddr choice r + 3 - 1 = blindAddr choice r + 2 by
        omega, (blinds_split blinds inside blinding).2.2]

variable {pass pass' : Pass} (state : PassAlike choice ebpfs blinded len len pass pass')
variable {i : Nat} {reloc reloc' : Reloc} (alike : RelocAlike choice len reloc reloc')

include tidy blinds fits state

theorem jump_offs {r : Nat} (inside : r < len) (jumps : (ebpfs r).jumps = true) :
    r < jumpTarget (ebpfs r) r ∧ jumpTarget (ebpfs r) r < len ∧
      (pass.ebpfs r).off.toInt = jumpTarget (ebpfs r) r - r - 1 ∧
      (pass'.ebpfs (blindAddr choice (r + 1) - 1)).off.toInt =
        blindAddr choice (jumpTarget (ebpfs r) r) - blindAddr choice (r + 1) := by
  obtain ⟨ahead, below, target⟩ := jump_target tidy inside jumps
  have adjusted := adjusted_target tidy inside jumps fits
  refine ⟨ahead, below, ?_, ?_⟩
  · rw [state.off]
    omega
  · rw [state.off', blinded_last_off blinds inside jumps]
    omega

section Branch

variable {f : Filter} (branch : BranchKept choice ebpfs len i (blindAddr choice i)
  (pass.flags i).fold.toNat (pass'.flags (blindAddr choice i)).fold.toNat f)

include branch

theorem distance_alike {bitmap bitmap' : Bitmap}
    (bits : Spreads (fun j => (choice j).size) len bitmap.has bitmap'.has) :
    distance pass' bitmap' (blindAddr choice i) = distance pass bitmap i := by
  obtain ⟨jumpIn, jumps, width, _, _⟩ := branch
  obtain ⟨ahead, below, off, off'⟩ := jump_offs tidy blinds fits state jumpIn jumps
  have small := Spread.place_ge (blind_roomy choice len) (Nat.zero_le len) (Nat.le_refl len)
  change len - 0 ≤ blindAddr choice len - 0 at small
  have below' := blind_addr_lt choice below
  have upTo : i < jumpTarget (ebpfs (i + (pass.flags i).fold.toNat))
      (i + (pass.flags i).fold.toNat) := by omega
  have ahead' := blind_addr_lt choice upTo
  have place : blindAddr choice (i + (pass.flags i).fold.toNat + 1) - 1 =
      blindAddr choice i + (pass'.flags (blindAddr choice i)).fold.toNat := by omega
  rw [place] at off'
  rw [distance_span pass bitmap i _ upTo (by omega) (by rw [off]; omega),
    distance_span pass' bitmap' (blindAddr choice i) _ ahead' (by omega) (by rw [off']; omega),
    blind_span bits (Nat.le_of_lt upTo) (Nat.le_of_lt below)]

include alike

theorem ja_distance_alike (both : f.jt ≠ 0 ∧ f.jf ≠ 0) :
    jaDistance pass' reloc'.bitmap
        (blindAddr choice i + (pass'.flags (blindAddr choice i)).fold.toNat + 1) =
      jaDistance pass reloc.bitmap (i + (pass.flags i).fold.toNat + 1) := by
  obtain ⟨jumpIn, jumps, width, ja, _⟩ := branch
  obtain ⟨jaIn, jaCode⟩ := ja both.1 both.2
  have jaJumps : (ebpfs (i + (pass.flags i).fold.toNat + 1)).jumps = true := by
    simp [BpfInsn.jumps, BpfInsn.cls, BpfInsn.op, jaCode]
  have unblinded : (ebpfs (i + (pass.flags i).fold.toNat + 1)).blindable = false := by
    simp [BpfInsn.blindable, BpfInsn.cls, BpfInsn.op, jaCode]
  obtain ⟨ahead, below, off, off'⟩ := jump_offs tidy blinds fits state jaIn jaJumps
  have small := Spread.place_ge (blind_roomy choice len) (Nat.zero_le len) (Nat.le_refl len)
  change len - 0 ≤ blindAddr choice len - 0 at small
  have step := (blinds_plain blinds jaIn unblinded).2
  have below' := blind_addr_lt choice below
  have ahead' := blind_addr_lt choice ahead
  have last : blindAddr choice (i + (pass.flags i).fold.toNat + 1) =
      blindAddr choice (i + (pass.flags i).fold.toNat + 1 + 1) - 1 := by omega
  rw [width, ja_distance_kept pass _ _ _ ahead (by omega) off,
    ja_distance_kept pass' _ _ _ ahead' (by omega) (by rw [last, off']; omega),
    blind_span alike.bits (Nat.le_of_lt ahead) (Nat.le_of_lt below)]

theorem jump_over_alike (plain : f.jt = 0 ∧ f.jf = 0) :
    jumpOver pass' reloc'.bitmap (blindAddr choice i) = jumpOver pass reloc.bitmap i := by
  obtain ⟨jumpIn, jumps, width, _, none_⟩ := branch
  obtain ⟨ahead, below, off, off'⟩ := jump_offs tidy blinds fits state jumpIn jumps
  have small := Spread.place_ge (blind_roomy choice len) (Nat.zero_le len) (Nat.le_refl len)
  change len - 0 ≤ blindAddr choice len - 0 at small
  obtain ⟨fold, fold'⟩ := none_ plain.1 plain.2
  have place : blindAddr choice (i + (pass.flags i).fold.toNat + 1) - 1 =
      blindAddr choice i + (pass'.flags (blindAddr choice i)).fold.toNat := by omega
  rw [place] at off'
  rw [fold] at off ahead below off'
  rw [fold'] at off'
  rw [fold, fold'] at width
  simp only [Nat.add_zero] at off ahead below off' width
  have below' := blind_addr_lt choice below
  have ahead' := blind_addr_lt choice ahead
  rw [jump_over_span pass _ i _ ahead (by omega) fold off,
    jump_over_span pass' _ (blindAddr choice i) _ ahead' (by omega) fold' (by rw [off']; omega),
    blind_span alike.bits (Nat.le_of_lt ahead) (Nat.le_of_lt below)]

end Branch

omit tidy blinds fits state in
include alike in
theorem reloc_alike_write (f : Filter) (stored : List Nat) :
    RelocAlike choice len ⟨reloc.bitmap, Function.update reloc.buf i f, stored⟩
      ⟨reloc'.bitmap, Function.update reloc'.buf (blindAddr choice i) f, stored⟩ := by
  refine ⟨alike.bits, fun j less clear => ?_, rfl⟩
  by_cases here : j = i
  · subst here
    simp
  · have apart : blindAddr choice j ≠ blindAddr choice i :=
      fun collide => here (blind_addr_inj choice collide)
    dsimp only
    rw [Function.update_of_ne here, Function.update_of_ne apart]
    exact alike.buf j less clear

omit tidy blinds fits state in
theorem reloc_alike_restore {bitmap bitmap' : Bitmap} {buf buf' : Nat → Filter} {stored : List Nat}
    (alike : RelocAlike choice len ⟨bitmap, buf, stored⟩ ⟨bitmap', buf', stored⟩) (ja : Nat)
    (f : Filter) :
    RelocAlike choice len ⟨clearbit bitmap ja, Function.update buf ja f, stored⟩
      ⟨clearbit bitmap' (blindAddr choice ja), Function.update buf' (blindAddr choice ja) f, stored⟩ := by
  refine ⟨spreads_clearbit alike.bits ja, fun j less clear => ?_, rfl⟩
  dsimp only at clear ⊢
  by_cases there : j = ja
  · rw [there, Function.update_self, Function.update_self]
  · have apart : blindAddr choice j ≠ blindAddr choice ja :=
      fun collide => there (blind_addr_inj choice collide)
    rw [Function.update_of_ne there, Function.update_of_ne apart]
    apply alike.buf j less
    rw [has_clearbit, Bool.and_eq_false_iff] at clear
    rcases clear with clear | clear
    · exact clear
    · exact absurd (of_decide_eq_false clear) (by simpa using there)

variable (inside : i < len) (kept : reloc.bitmap.has i = false)
variable (same : reloc.buf i = pass.buf i) (still : pass.bitmap.has i = false)

include alike inside kept same still

theorem relocate_alike :
    RelocAlike choice len (relocate pass i reloc) (relocate pass' (blindAddr choice i) reloc') := by
  have own : reloc'.buf (blindAddr choice i) = reloc.buf i := alike.buf i inside kept
  unfold relocate
  dsimp only
  rw [own]
  by_cases straight : bpfClass (reloc.buf i).code ≠ 0x05
  · rw [if_pos straight, if_pos straight]
    exact alike
  rw [if_neg straight, if_neg straight]
  have branch := state.jumps i inside still (by rw [← same]; exact Decidable.not_not.mp straight)
  rw [← same] at branch
  have dist {bitmap bitmap' : Bitmap}
      (bits : Spreads (fun j => (choice j).size) len bitmap.has bitmap'.has) :=
    distance_alike tidy blinds fits state branch bits
  by_cases split : (reloc.buf i).jt ≠ 0 ∧ (reloc.buf i).jf ≠ 0
  · rw [if_pos split, if_pos split, ja_distance_alike tidy blinds fits state alike branch split]
    by_cases long : 255 < jaDistance pass reloc.bitmap (i + (pass.flags i).fold.toNat + 1)
    · rw [if_pos long, if_pos long, branch.width,
        dist (spreads_clearbit alike.bits (i + (pass.flags i).fold.toNat + 1)), alike.stored]
      exact reloc_alike_restore (reloc_alike_write alike _ _) _ _
    · rw [if_neg long, if_neg long, dist alike.bits, alike.stored]
      exact reloc_alike_write alike _ _
  rw [if_neg split, if_neg split]
  by_cases one : (reloc.buf i).jt ≠ 0 ∨ (reloc.buf i).jf ≠ 0
  · rw [if_pos one, if_pos one, dist alike.bits, alike.stored]
    exact reloc_alike_write alike _ _
  · rw [if_neg one, if_neg one]
    have plain : (reloc.buf i).jt = 0 ∧ (reloc.buf i).jf = 0 := by
      rw [not_or, Decidable.not_not, Decidable.not_not] at one
      exact one
    rw [jump_over_alike tidy blinds fits state alike branch plain, alike.stored]
    exact reloc_alike_write alike _ _

end Relocate

theorem relocate_untouched (pass : Pass) (i : Nat) (reloc : Reloc) (j : Nat) (less : j < i) :
    (relocate pass i reloc).buf j = reloc.buf j := by
  unfold relocate
  dsimp only
  split
  · rfl
  · split
    · split
      · dsimp only
        rw [Function.update_of_ne (show j ≠ i + (pass.flags i).fold.toNat + 1 by omega),
          Function.update_of_ne (Nat.ne_of_lt less)]
      · exact Function.update_of_ne (Nat.ne_of_lt less) ..
    · split
      · exact Function.update_of_ne (Nat.ne_of_lt less) ..
      · exact Function.update_of_ne (Nat.ne_of_lt less) ..

theorem relocate_all_prologue (pass : Pass) (i : Nat) (small : i < skip) (reloc : Reloc) :
    relocateAll pass i reloc = reloc := by
  simp only [skip] at small
  cases i with
  | zero => rfl
  | succ i => rw [relocateAll, if_neg (by simp only [skip]; omega)]

theorem prologue_addr {choice : Nat → Blinding} {ebpfs blinded : Nat → BpfInsn} {len : Nat}
    (tidy : Tidy ebpfs len) (blinds : Blinds choice ebpfs len blinded) (i : Nat) (small : i ≤ skip) :
    blindAddr choice i = i := by
  induction i with
  | zero => rfl
  | succ i ih =>
      obtain ⟨inside, src, _⟩ := tidy.prologue i small
      rw [(blinds_plain blinds inside (unblindable_src src)).2, ih (by omega)]

section Passes

variable {choice : Nat → Blinding} {ebpfs blinded : Nat → BpfInsn} {len : Nat}
variable (tidy : Tidy ebpfs len) (blinds : Blinds choice ebpfs len blinded)
variable (fits : blindAddr choice len ≤ 0x8000)

include tidy blinds fits

theorem relocate_all_alike {pass pass' : Pass}
    (state : PassAlike choice ebpfs blinded len len pass pass') (i : Nat) (inside : i < len)
    (reloc reloc' : Reloc) (alike : RelocAlike choice len reloc reloc')
    (same : ∀ j, j ≤ i → reloc.buf j = pass.buf j)
    (below : ∀ j, j ≤ i → reloc.bitmap.has j = pass.bitmap.has j) :
    RelocAlike choice len (relocateAll pass i reloc)
      (relocateAll pass' (blindAddr choice (i + 1) - 1) reloc') := by
  induction i generalizing reloc reloc' with
  | zero =>
      rw [prologue_addr tidy blinds 1 (by decide)]
      exact alike
  | succ i ih =>
      rcases Nat.lt_or_ge (i + 1) skip with early | late
      · rw [prologue_addr tidy blinds (i + 1 + 1) early, relocate_all_prologue _ _ early,
          relocate_all_prologue _ _ (by omega)]
        exact alike
      have start := prologue_addr tidy blinds skip (Nat.le_refl _)
      have low : 3 ≤ blindAddr choice (i + 1) := by
        have grows := blind_addr_le choice late
        rwa [start] at grows
      simp only [skip] at late
      have own := blinding_size_pos (choice (i + 1))
      have step := blind_addr_succ choice (i + 1)
      -- the rest of the group is deleted
      have passed := relocate_all_deleted pass' (blindAddr choice (i + 1))
        ((choice (i + 1)).size - 1) reloc' (by simp only [skip]; omega) fun k above upTo => by
          have split : k = blindAddr choice (i + 1) + (k - blindAddr choice (i + 1)) := by omega
          rw [split]
          exact alike.bits.inner (i + 1) inside _ (by omega) (by omega)
      rw [show blindAddr choice (i + 1 + 1) - 1 =
        blindAddr choice (i + 1) + ((choice (i + 1)).size - 1) by omega, passed]
      obtain ⟨m, place⟩ : ∃ m, blindAddr choice (i + 1) = m + 1 :=
        ⟨blindAddr choice (i + 1) - 1, by omega⟩
      have mark : reloc'.bitmap.has (blindAddr choice (i + 1)) = reloc.bitmap.has (i + 1) :=
        alike.bits.starts (i + 1) inside
      have once : relocateAll pass' (blindAddr choice (i + 1)) reloc' =
          relocateAll pass' (blindAddr choice (i + 1) - 1)
            (if reloc.bitmap.has (i + 1) then reloc'
              else relocate pass' (blindAddr choice (i + 1)) reloc') := by
        rw [← mark, place, relocateAll, if_pos (by simp only [skip]; omega)]
        rfl
      rw [once, relocateAll, if_pos (by simp only [skip]; omega)]
      cases marked : reloc.bitmap.has (i + 1) with
      | true =>
          exact ih (by omega) reloc reloc' alike (fun j le => same j (by omega))
            fun j le => below j (by omega)
      | false =>
          have still : pass.bitmap.has (i + 1) = false := by rw [← below _ (Nat.le_refl _), marked]
          refine ih (by omega) _ _ (relocate_alike tidy blinds fits state alike inside marked
            (same _ (Nat.le_refl _)) still) ?_ ?_
          · intro j le
            rw [if_neg (by simp), relocate_untouched pass (i + 1) reloc j (by omega),
              same j (by omega)]
          · intro j le
            rw [if_neg (by simp), relocate_below pass (i + 1) reloc j (by omega),
              below j (by omega)]

theorem blinded_jumps_inside (k : Nat) (below : k < blindAddr choice len) :
    jumpsInside blinded (blindAddr choice len) k = true := by
  obtain ⟨i, j, inside, small, rfl⟩ := Spread.place_cover k below
  change jumpsInside blinded (blindAddr choice len) (blindAddr choice i + j) = true
  have step := blind_addr_succ choice i
  have straight (insn : BpfInsn) (here : blinded (blindAddr choice i + j) = insn)
      (plain : insn.jumps = false) :
      jumpsInside blinded (blindAddr choice len) (blindAddr choice i + j) = true := by
    unfold jumpsInside
    dsimp only
    rw [here, if_neg]
    simpa [BpfInsn.jumps] using plain
  have jumping (insn : BpfInsn) (here : blinded (blindAddr choice i + j) = insn)
      (last : blindAddr choice i + j + 1 = blindAddr choice (i + 1))
      (jumps : insn.jumps = (ebpfs i).jumps) (off : insn.off = adjustedOff choice (ebpfs i) i) :
      jumpsInside blinded (blindAddr choice len) (blindAddr choice i + j) = true := by
    cases leaps : (ebpfs i).jumps with
    | false => exact straight insn here (by rw [jumps, leaps])
    | true =>
        obtain ⟨ahead, less, _⟩ := jump_target tidy inside leaps
        have adjusted := adjusted_target tidy inside leaps fits
        have grows := blind_addr_le choice (show i + 1 ≤ jumpTarget (ebpfs i) i from ahead)
        have bound := blind_addr_lt choice less
        unfold jumpsInside
        dsimp only
        rw [here, off]
        split
        · rw [decide_eq_true_iff]
          omega
        · rfl
  -- a cell of the blinded code is the only one of its group, or one of mov, xor and the operation
  cases blinding : choice i with
  | kept =>
      rw [blinding, Blinding.size] at small step
      obtain rfl : j = 0 := by omega
      exact jumping _ (blinds_kept blinds inside blinding) (by omega) rfl rfl
  | cleared =>
      rw [blinding, Blinding.size] at small
      obtain rfl : j = 0 := by omega
      exact straight _ (blinds_cleared blinds inside blinding)
        (by simp [BpfInsn.jumps, BpfInsn.cls])
  | split rnd =>
      obtain ⟨first, second, third⟩ := blinds_split blinds inside blinding
      rw [blinding, Blinding.size] at small step
      have arith (op : BitVec 8) (listed : op = 0xb0 ∨ op = 0xa0) (insn : BpfInsn)
          (code : insn.code = (if (ebpfs i).cls = 0x04 then (0x04 : BitVec 8) else 0x07) ||| op) :
          insn.jumps = false := by
        rw [BpfInsn.jumps, BpfInsn.cls, BpfInsn.op, code]
        split <;> rcases listed with rfl | rfl <;> decide
      have bits : ∀ code : BitVec 8, (code ||| 0x08) &&& 0x07#8 = code &&& 0x07#8 ∧
          (code ||| 0x08) &&& 0xf0#8 = code &&& 0xf0#8 := by decide
      rcases j with _ | _ | _ | j
      · exact straight _ first (arith 0xb0 (Or.inl rfl) _ rfl)
      · exact straight _ second (arith 0xa0 (Or.inr rfl) _ rfl)
      · refine jumping _ third (by omega) ?_ rfl
        simp only [BpfInsn.jumps, BpfInsn.cls, BpfInsn.op, (bits (ebpfs i).code).1,
          (bits (ebpfs i).code).2]
      · omega

omit fits in
theorem pass_alike_start (buf buf' : Nat → Filter) :
    PassAlike choice ebpfs blinded len skip
      ⟨ebpfs, fun _ => ⟨0, false⟩, Function.update (fun _ => 0) 0 7, buf⟩
      ⟨blinded, fun _ => ⟨0, false⟩, Function.update (fun _ => 0) 0 7, buf'⟩ := by
  have start := prologue_addr tidy blinds skip (Nat.le_refl _)
  have marked (j : Nat) (below : j < skip) :
      Bitmap.has (Function.update (fun _ => 0) 0 7) j = true := (prologue_deleted j).mpr below
  have clear (j : Nat) (above : skip ≤ j) :
      Bitmap.has (Function.update (fun _ => 0) 0 7) j = false := by
    rw [Bool.eq_false_iff, ne_eq, prologue_deleted]
    omega
  refine ⟨fun _ _ => rfl, fun _ _ => rfl, fun _ => rfl, fun _ => rfl, fun _ _ => rfl, fun _ _ => rfl,
    fun _ _ => rfl, ⟨?_, ?_⟩, clear, fun k above => clear k (by omega), ?_, ?_⟩
  · intro j below
    change Bitmap.has _ (blindAddr choice j) = _
    rw [prologue_addr tidy blinds j (Nat.le_of_lt below)]
  · intro j below n positive room
    obtain ⟨inside, src, _⟩ := tidy.prologue j below
    rw [permits_kept (blinds.permits j inside) (unblindable_src src), Blinding.size] at room
    omega
  · intro j below kept
    rw [marked j below] at kept
    cases kept
  · intro j below kept
    rw [marked j below] at kept
    cases kept

theorem fold_all_alike (buf buf' : Nat → Filter) (no no' : Nat) {done : Pass}
    (folded : foldAll ebpfs len buf no = .ok done) :
    ∃ done', foldAll blinded (blindAddr choice len) buf' no' = .ok done' ∧
      PassAlike choice ebpfs blinded len len done done' := by
  have start := prologue_addr tidy blinds skip (Nat.le_refl _)
  have size : skip ≤ len := (tidy.prologue 2 (by decide)).1
  have same (i : Nat) (small : i < skip) :
      (blinded i).cls = (ebpfs i).cls ∧ (blinded i).op = (ebpfs i).op := by
    obtain ⟨inside, src, _⟩ := tidy.prologue i small
    have first := (blinds_plain blinds inside (unblindable_src src)).1
    rw [prologue_addr tidy blinds i (Nat.le_of_lt small)] at first
    rw [first]
    exact ⟨rfl, rfl⟩
  unfold foldAll at folded ⊢
  rw [(same 0 (by decide)).1, (same 0 (by decide)).2, (same 1 (by decide)).1, (same 1 (by decide)).2,
    (same 2 (by decide)).1, (same 2 (by decide)).2]
  by_cases xorA : ¬ ((ebpfs 0).cls = 0x04 ∧ (ebpfs 0).op = 0xa0)
  · rw [if_pos xorA] at folded
    cases folded
  rw [if_neg xorA] at folded ⊢
  by_cases xorX : ¬ ((ebpfs 1).cls = 0x04 ∧ (ebpfs 1).op = 0xa0)
  · rw [if_pos xorX] at folded
    cases folded
  rw [if_neg xorX] at folded ⊢
  by_cases movCtx : ¬ ((ebpfs 2).cls = 0x07 ∧ (ebpfs 2).op = 0xb0)
  · rw [if_pos movCtx] at folded
    cases folded
  rw [if_neg movCtx] at folded ⊢
  have passed := first_pass_alike tidy blinds fits len (blindAddr choice len) skip _ _ done
    (pass_alike_start tidy blinds buf buf') size (by omega) (by omega) folded
  rwa [start] at passed

/-- The second pass from the last instruction on, as `ebpf2cbpf` starts it. -/
def relocated (pass : Pass) (len : Nat) : Reloc :=
  secondPass pass (len - 1)
    ⟨(len - 1) / u32Bits, 1#32 <<< ((len - 1) % u32Bits), pass.bitmap ((len - 1) / u32Bits)⟩
    ⟨pass.bitmap, pass.buf, []⟩

omit tidy blinds fits in
theorem relocated_all (pass : Pass) (len : Nat) :
    relocated pass len = relocateAll pass (len - 1) ⟨pass.bitmap, pass.buf, []⟩ := by
  apply second_pass_uncached
  refine ⟨rfl, rfl, fun j le word => ?_⟩
  rw [Bitmap.has, show j / u32Bits = (len - 1) / u32Bits from word]
  rfl

/-- The indices kept behind the prologue, in order. -/
def keptIdx (bitmap : Bitmap) (len : Nat) : List Nat :=
  (List.range' skip (len - skip)).filter fun i => !bitmap.has i

omit tidy blinds fits in
theorem ebpf2cbpf_returns (code : Nat → BpfInsn) (buf : Nat → Filter) (trustful : Bool)
    {pass : Pass} (checked : ∀ i, i < len → jumpsInside code len i = true)
    (folded : foldAll code len buf (if trustful then 1 else len + 1) = .ok pass) :
    ebpf2cbpf code len buf trustful =
      .ok ⟨(keptIdx (relocated pass len).bitmap len).map (relocated pass len).buf,
        (relocated pass len).stored⟩ := by
  have clean : (List.range len).find? (fun i => !trustful && !jumpsInside code len i) = none := by
    rw [List.find?_eq_none]
    intro i member
    rw [checked i (List.mem_range.mp member)]
    simp
  have copied : thirdPass (relocated pass len) (len - skip) skip
      ⟨0, 8, (relocated pass len).bitmap 0⟩ =
        (keptIdx (relocated pass len).bitmap len).map (relocated pass len).buf := by
    exact (third_pass_compact (relocated pass len) (len - skip) skip
      ⟨0, 8, (relocated pass len).bitmap 0⟩ ⟨rfl, rfl, rfl⟩).trans (Compact.compact_filter ..)
  unfold ebpf2cbpf
  rw [clean, folded, ← copied]
  rfl

omit tidy blinds fits in
theorem ebpf2cbpf_folded (code : Nat → BpfInsn) (buf : Nat → Filter) (trustful : Bool)
    {recovered : Recovered} (done : ebpf2cbpf code len buf trustful = .ok recovered) :
    ∃ pass, foldAll code len buf (if trustful then 1 else len + 1) = .ok pass := by
  unfold ebpf2cbpf at done
  split at done
  · cases done
  split at done
  · cases done
  next pass folded =>
  exact ⟨pass, folded⟩

theorem relocated_alike {pass pass' : Pass}
    (state : PassAlike choice ebpfs blinded len len pass pass') :
    RelocAlike choice len (relocated pass len) (relocated pass' (blindAddr choice len)) := by
  have size : 2 < len := (tidy.prologue 2 (by decide)).1
  have both := relocate_all_alike tidy blinds fits state (len - 1) (by omega)
    ⟨pass.bitmap, pass.buf, []⟩ ⟨pass'.bitmap, pass'.buf, []⟩ ⟨state.bits, state.buf, rfl⟩
    (fun _ _ => rfl) fun _ _ => rfl
  rw [show len - 1 + 1 = len by omega] at both
  rw [relocated_all, relocated_all]
  exact both

theorem ebpf2cbpf_unblinds (buf buf' : Nat → Filter) (trustful : Bool) {recovered : Recovered}
    (done : ebpf2cbpf ebpfs len buf trustful = .ok recovered) :
    ebpf2cbpf blinded (blindAddr choice len) buf' trustful = .ok recovered := by
  have size : skip ≤ len := (tidy.prologue 2 (by decide)).1
  have start := prologue_addr tidy blinds skip (Nat.le_refl _)
  obtain ⟨pass, folded⟩ := ebpf2cbpf_folded ebpfs buf trustful done
  obtain ⟨pass', folded', state⟩ := fold_all_alike tidy blinds fits buf buf' _
    (if trustful then 1 else blindAddr choice len + 1) folded
  have both := relocated_alike tidy blinds fits state
  rw [ebpf2cbpf_returns ebpfs buf trustful tidy.inside folded] at done
  rw [ebpf2cbpf_returns blinded buf' trustful (blinded_jumps_inside tidy blinds fits) folded',
    ← Except.ok.inj done]
  have kept := Spread.compact_place (blind_roomy choice len) both.bits _ _ both.buf skip
    (len - skip) (by omega)
  rw [show skip + (len - skip) = len by omega] at kept
  change compact _ _ (blindAddr choice len - blindAddr choice skip) (blindAddr choice skip) = _ at kept
  rw [start, Compact.compact_filter, Compact.compact_filter] at kept
  rw [keptIdx, kept, both.stored]
  rfl

end Passes

end Ceccomp
