import Ceccomp.Lib.Compact
import Ceccomp.Ebpf.FirstPass

/-!
The second pass. Behind the word it caches, the loop walks down the bitmap; each
jump it meets is relocated by counting the kept instructions in between. A kept
group holds one filter, so no jump gets longer than it was, and only a JA that
was taken over by the jump before it may have to be split out again.
-/

namespace Ceccomp

open Compact (span)

def relocateAll (pass : Pass) : Nat → Reloc → Reloc
  | 0, reloc => reloc
  | i + 1, reloc =>
      if i + 1 > skip - 1 then
        relocateAll pass i
          (if reloc.bitmap.has (i + 1) then reloc else relocate pass (i + 1) reloc)
      else reloc

theorem has_clearbit (bitmap : Bitmap) (idx i : Nat) :
    (clearbit bitmap idx).has i = (bitmap.has i && decide (i ≠ idx)) := by
  unfold Bitmap.has clearbit u32Bits
  have bound : i % 32 < 32 := Nat.mod_lt _ (by decide)
  by_cases word : i / 32 = idx / 32
  · rw [word, Function.update_self, BitVec.getLsbD_and, BitVec.getLsbD_not,
      BitVec.getLsbD_shiftLeft]
    congr 1
    simp only [bound, decide_true, Bool.true_and, BitVec.getLsbD_one]
    rw [Bool.eq_iff_iff]
    simp
    omega
  · rw [Function.update_of_ne word]
    have apart : i ≠ idx := fun same => word (by rw [same])
    simp [apart]

/-- The cursor looks at bit `i`, and its cached word holds the bits up to there. -/
structure Cursor.At (cursor : Cursor) (bitmap : Bitmap) (i : Nat) : Prop where
  mapidx : cursor.mapidx = i / 32
  bitmask : cursor.bitmask = 1#32 <<< (i % 32)
  bitset : ∀ j, j ≤ i → j / 32 = i / 32 → cursor.bitset.getLsbD (j % 32) = bitmap.has j

theorem and_bit (word : BitVec 32) (n : Nat) :
    (word &&& 1#32 <<< n != 0) = word.getLsbD n := by
  have power : 1#32 <<< n = BitVec.twoPow 32 n := by simp [BitVec.twoPow]
  rw [power, BitVec.and_twoPow]
  cases set : word.getLsbD n with
  | false => simp
  | true =>
      have inside : n < 32 := by
        by_contra beyond
        rw [BitVec.getLsbD_of_ge _ _ (by omega)] at set
        cases set
      have positive : BitVec.twoPow 32 n ≠ 0#32 := by
        intro zero
        have bit := congrArg (fun w => BitVec.getLsbD w n) zero
        simp [inside] at bit
      simpa using positive

theorem cursor_marked {cursor : Cursor} {bitmap : Bitmap} {i : Nat} (here : cursor.At bitmap i) :
    cursor.marked = bitmap.has i := by
  rw [Cursor.marked, here.bitmask, and_bit, here.bitset i (Nat.le_refl i) rfl]

theorem shift_back (n : Nat) (small : n + 1 < 32) : (1#32 <<< (n + 1)) >>> 1 = 1#32 <<< n := by
  apply BitVec.eq_of_toNat_eq
  have power : 2 ^ (n + 1) < 2 ^ 32 := Nat.pow_lt_pow_right (by decide) small
  have lower : 2 ^ n < 2 ^ 32 := Nat.pow_lt_pow_right (by decide) (by omega)
  simp only [BitVec.toNat_ushiftRight, BitVec.toNat_shiftLeft, BitVec.toNat_ofNat,
    Nat.shiftLeft_eq, Nat.shiftRight_eq_div_pow, Nat.one_mod, Nat.one_mul, Nat.reducePow]
    at power lower ⊢
  rw [Nat.mod_eq_of_lt power, Nat.mod_eq_of_lt lower, Nat.pow_succ]
  omega

theorem cursor_down {cursor : Cursor} {bitmap : Bitmap} {i : Nat}
    (here : cursor.At bitmap (i + 1)) : (cursor.down bitmap).At bitmap i := by
  obtain ⟨mapidx, bitmask, bitset⟩ := here
  have bound : (i + 1) % 32 < 32 := Nat.mod_lt _ (by decide)
  by_cases first : (i + 1) % 32 = 0
  · have zero : cursor.bitmask >>> 1 = 0 := by rw [bitmask, first]; rfl
    simp only [Cursor.down, zero, ↓reduceIte]
    refine ⟨by dsimp only; omega, ?_, ?_⟩
    · rw [show i % 32 = u32Bits - 1 by simp only [u32Bits]; omega]
    · intro j le word
      rw [mapidx, show (i + 1) / 32 - 1 = j / 32 by omega]
      rfl
  · have shifted : cursor.bitmask >>> 1 = 1#32 <<< (i % 32) := by
      rw [bitmask, show (i + 1) % 32 = i % 32 + 1 by omega]
      exact shift_back (i % 32) (by omega)
    have nonzero : (1#32 <<< (i % 32)) ≠ 0 := by
      intro zero
      have bit := congrArg (fun w => BitVec.getLsbD w (i % 32)) zero
      simp at bit
      omega
    simp only [Cursor.down, shifted, if_neg nonzero]
    exact ⟨by rw [mapidx]; omega, rfl, fun j le word => bitset j (by omega) (by omega)⟩

theorem cursor_congr {cursor : Cursor} {bitmap other : Bitmap} {i : Nat}
    (here : cursor.At bitmap i) (same : ∀ j, j ≤ i → other.has j = bitmap.has j) :
    cursor.At other i :=
  ⟨here.mapidx, here.bitmask, fun j le word => by rw [here.bitset j le word, same j le]⟩

theorem relocate_below (pass : Pass) (i : Nat) (reloc : Reloc) (j : Nat) (le : j ≤ i) :
    (relocate pass i reloc).bitmap.has j = reloc.bitmap.has j := by
  unfold relocate
  dsimp only
  split
  · rfl
  · split
    · split
      · rw [has_clearbit]
        have apart : j ≠ i + (pass.flags i).fold.toNat + 1 := by omega
        simp [apart]
      · rfl
    · split <;> rfl

theorem second_pass_uncached (pass : Pass) (i : Nat) (cursor : Cursor) (reloc : Reloc)
    (here : cursor.At reloc.bitmap i) : secondPass pass i cursor reloc = relocateAll pass i reloc := by
  induction i generalizing cursor reloc with
  | zero => rfl
  | succ i ih =>
      rw [secondPass, relocateAll]
      split
      · rw [cursor_marked here]
        have down := cursor_down here
        apply ih
        split
        · exact down
        · exact cursor_congr down fun j le => relocate_below pass (i + 1) reloc j (by omega)
      · rfl

theorem relocate_all_deleted (pass : Pass) (low count : Nat) (reloc : Reloc) (from_ : skip - 1 ≤ low)
    (deleted : ∀ j, low < j → j ≤ low + count → reloc.bitmap.has j = true) :
    relocateAll pass (low + count) reloc = relocateAll pass low reloc := by
  induction count with
  | zero => rfl
  | succ count ih =>
      rw [← Nat.add_assoc, relocateAll, if_pos (by omega),
        if_pos (deleted (low + count + 1) (by omega) (by omega))]
      exact ih fun j above below => deleted j above (by omega)

theorem count_span (bitmap : Bitmap) (low high : Nat) (le : low ≤ high) :
    countbits bitmap low high + span bitmap.has low high = high - low := by
  have counted := countbits_below bitmap low high le
  have both (n : Nat) : bitmap.below n + span bitmap.has 0 n = n := by
    simp only [Bitmap.below, span, Nat.zero_add, Nat.sub_zero]
    induction n with
    | zero => rfl
    | succ n ih =>
        rw [Nat.count_succ, Nat.count_succ]
        cases bitmap.has n <;> simp <;> omega
  have whole := both high
  have first := both low
  rw [Compact.span_split bitmap.has (Nat.zero_le low) le] at whole
  omega

/-- Only group starts can be kept, and those the first pass kept are kept. -/
structure GroupBits (prog : List Filter) (bitmap : Bitmap) : Prop where
  inner : ∀ idx, idx < addr prog prog.length → (∀ d, d < prog.length → idx ≠ addr prog d) →
    bitmap.has idx = true
  starts : ∀ d, d < prog.length → eaten prog d = false → bitmap.has (addr prog d) = false

theorem group_bits_clear {prog : List Filter} {bitmap : Bitmap} (bits : GroupBits prog bitmap)
    {d : Nat} (inside : d < prog.length) : GroupBits prog (clearbit bitmap (addr prog d)) := by
  constructor
  · intro idx bound inner
    rw [has_clearbit, bits.inner idx bound inner, decide_eq_true (inner d inside)]
    rfl
  · intro e bound uneaten
    rw [has_clearbit, bits.starts e bound uneaten]
    rfl

section Spans

variable {prog : List Filter} (accepted : Accepted prog) {bitmap : Bitmap}
variable (bits : GroupBits prog bitmap)

include accepted bits

omit accepted in
theorem inner_deleted {d : Nat} (inside : d < prog.length) (i : Nat) (above : addr prog d < i)
    (below : i < addr prog (d + 1)) : bitmap.has i = true := by
  have fits := addr_mono prog (show d + 1 ≤ prog.length by omega)
  apply bits.inner i (by omega)
  intro other bound same
  rcases Nat.lt_or_ge d other with later | earlier
  · have := addr_mono prog (show d + 1 ≤ other from later)
    omega
  · have := addr_mono prog earlier
    omega

theorem span_group {d : Nat} (inside : d < prog.length) :
    span bitmap.has (addr prog d) (addr prog (d + 1)) =
      if bitmap.has (addr prog d) = false then 1 else 0 := by
  have less := addr_lt accepted (show d < d + 1 by omega) (show d + 1 ≤ prog.length by omega)
  split
  · next kept =>
      exact Compact.span_head bitmap.has kept less (inner_deleted bits inside)
  · next dropped =>
      refine Compact.span_deleted bitmap.has _ _ fun i above below => ?_
      rcases Nat.eq_or_lt_of_le above with rfl | later
      · simpa using dropped
      · exact inner_deleted bits inside i later below

theorem span_groups_le {c d : Nat} (le : c ≤ d) (inside : d ≤ prog.length) :
    span bitmap.has (addr prog c) (addr prog d) ≤ d - c := by
  induction d with
  | zero =>
      obtain rfl := Nat.le_zero.mp le
      simp [Compact.span_self]
  | succ d ih =>
      rcases Nat.lt_or_ge c (d + 1) with less | same
      · rw [Compact.span_split bitmap.has (addr_mono prog (show c ≤ d by omega))
          (addr_mono prog (Nat.le_succ d)), span_group accepted bits (by omega)]
        have before := ih (by omega) (by omega)
        split <;> omega
      · obtain rfl : c = d + 1 := by omega
        simp [Compact.span_self]

end Spans

def gap (prog : List Filter) (bitmap : Bitmap) (d t : Nat) : Nat :=
  span bitmap.has (addr prog d) (addr prog t) - 1

def jaTarget (prog : List Filter) (d : Nat) : Nat :=
  match insnAt prog d with
  | some (.ja k) => d + 1 + k.toNat
  | _ => d + 1

/-- Where a conditional jump goes when it does not jump by `jt`: the JA behind it
is skipped if it is still deleted. -/
def falseTarget (prog : List Filter) (bitmap : Bitmap) (d : Nat) (jf : BitVec 8) : Nat :=
  if swallows prog d = true ∧ bitmap.has (addr prog (d + 1)) = true then jaTarget prog (d + 1)
  else d + 1 + jf.toNat

/-- The filter `f` is what a kept group's instruction becomes by relocation: its
jumps count kept filters, and its fields hold these distances. -/
def Insn.Relocates (prog : List Filter) (bitmap : Bitmap) (d : Nat) (insn : Insn) (f : Filter) :
    Prop :=
  match insn with
  | .ja k => ∃ k', f.insn? = some (.ja k') ∧ k'.toNat = gap prog bitmap d (d + 1 + k.toNat)
  | .jmp op src jt jf => ∃ jt' jf', f.insn? = some (.jmp op src jt' jf') ∧
      jt'.toNat = gap prog bitmap d (d + 1 + jt.toNat) ∧
      jf'.toNat = gap prog bitmap d (falseTarget prog bitmap d jf)
  | .ldAbs _ | .ldLen _ | .ldImm .. | .ldMem .. | .st .. | .alu .. | .neg | .tax | .txa | .retA
  | .retK _ => f.insn? = some (insn.folded (swallows prog d))

/-- What the second pass has done when all groups from `c` on are relocated. -/
structure RelocatedFrom (prog : List Filter) (pass : Pass) (c : Nat) (reloc : Reloc) : Prop where
  bits : GroupBits prog reloc.bitmap
  below : ∀ idx, idx ≤ addr prog c → reloc.bitmap.has idx = pass.bitmap.has idx
  rets : ∀ d, d < prog.length → eaten prog d = true → insnAt prog d = some .retA →
    reloc.bitmap.has (addr prog d) = true
  untouched : ∀ idx, idx < addr prog c → reloc.buf idx = pass.buf idx
  done : ∀ d insn, c ≤ d → eaten prog d = false → insnAt prog d = some insn →
    insn.Relocates prog reloc.bitmap d (reloc.buf (addr prog d))
  restored : ∀ d k, c < d → eaten prog d = true → insnAt prog d = some (.ja k) →
    reloc.bitmap.has (addr prog d) = false →
    (Insn.ja k).Relocates prog reloc.bitmap d (reloc.buf (addr prog d))
  fits : ∀ value ∈ reloc.stored, value ≤ 255

theorem gap_congr {prog : List Filter} {bitmap other : Bitmap} {d : Nat}
    (same : ∀ i, addr prog d ≤ i → other.has i = bitmap.has i) (t : Nat) :
    gap prog other d t = gap prog bitmap d t := by
  rw [gap, gap, Compact.span_congr fun i above _ => same i above]

theorem relocates_congr {prog : List Filter} {bitmap other : Bitmap} {d : Nat}
    (same : ∀ i, addr prog d ≤ i → other.has i = bitmap.has i) (insn : Insn) (f : Filter) :
    insn.Relocates prog other d f ↔ insn.Relocates prog bitmap d f := by
  cases insn with
  | ja k => simp only [Insn.Relocates, gap_congr same]
  | jmp op src jt jf =>
      have target : falseTarget prog other d jf = falseTarget prog bitmap d jf := by
        unfold falseTarget
        rw [same _ (addr_mono prog (Nat.le_succ d))]
      simp only [Insn.Relocates, gap_congr same, target]
  | _ => exact Iff.rfl

theorem jmp_fields {f : Filter} {op : JmpOp} {src : Src} {jt jf : BitVec 8}
    (decoded : f.insn? = some (.jmp op src jt jf)) :
    f.jt = jt ∧ f.jf = jf ∧ bpfClass f.code = 0x05 ∧ ∀ jt' jf' : BitVec 8,
      ({ f with jt := jt', jf := jf' } : Filter).insn? = some (.jmp op src jt' jf') := by
  have fields := insn_over f _ decoded
  have code := insn_code f _ decoded
  refine ⟨?_, ?_, ?_, ?_⟩
  · cases src <;> simp_all [Insn.over]
  · cases src <;> simp_all [Insn.over]
  · rw [code, bpfClass]
    have bit : src.bit = 0x00 ∨ src.bit = 0x08 := by cases src <;> simp [Src.bit]
    rcases bit with bit | bit <;> cases op <;> simp [Insn.code, bit, JmpOp.bits]
  · intro jt' jf'
    have same : ({ f with jt := jt', jf := jf' } : Filter) =
        cbpfJmp (0x05 ||| op.bits ||| src.bit) f.k jt' jf' := by
      rw [cbpfJmp, show f.code = 0x05 ||| op.bits ||| src.bit from code]
    rw [same]
    exact insn_of_jmp op src f.k jt' jf' (jmp_imm decoded)

theorem u32_of_nat (value : Int) (n : Nat) (same : value = n) (small : n < 4294967296) :
    u32 value = n := by
  unfold u32
  omega

section Relocation

variable {prog : List Filter} (accepted : Accepted prog) {ebpfs : Nat → BpfInsn} {pass : Pass}
variable (state : AtGroup prog ebpfs prog.length pass) {d : Nat} {insn : Insn}
variable (here : insnAt prog d = some insn) (kept : eaten prog d = false)

include accepted

theorem distance_gap {bitmap : Bitmap} {t : Nat} (ahead : d < t) (inside : t < prog.length)
    (clear : bitmap.has (addr prog d) = false)
    (before : addr prog d + (pass.flags (addr prog d)).fold.toNat < addr prog t)
    (off : (pass.ebpfs (addr prog d + (pass.flags (addr prog d)).fold.toNat)).off =
      emitJmp (addr prog) t (addr prog d + (pass.flags (addr prog d)).fold.toNat)) :
    distance pass bitmap (addr prog d) = gap prog bitmap d t := by
  have short := accepted.short
  have bound := addr_le prog t
  simp only [skip, bpfMaxInsns] at bound short
  have less := addr_lt accepted ahead (Nat.le_of_lt inside)
  have offset := emit_jmp_int prog t _ (by simp only [bpfMaxInsns]; omega) before
  have counted := count_span bitmap (addr prog d) (addr prog t) (Nat.le_of_lt less)
  have head : span bitmap.has (addr prog d) (addr prog t) =
      1 + span bitmap.has (addr prog d + 1) (addr prog t) := by
    rw [Compact.span_split bitmap.has (show addr prog d ≤ addr prog d + 1 by omega) less,
      Compact.span_one, if_pos clear]
  unfold distance gap
  dsimp only
  rw [off, offset]
  generalize (pass.flags (addr prog d)).fold.toNat = fold at *
  rw [u32_of_nat (addr prog d + fold + 1 + (addr prog t - ((addr prog d + fold : Nat) : Int) - 1))
    (addr prog t) (by omega) (by omega)]
  exact u32_of_nat _ _ (by omega) (by omega)

theorem jump_over_gap {bitmap : Bitmap} {t : Nat} (ahead : d < t) (inside : t < prog.length)
    (clear : bitmap.has (addr prog d) = false) (fold : (pass.flags (addr prog d)).fold.toNat = 0)
    (off : (pass.ebpfs (addr prog d)).off = emitJmp (addr prog) t (addr prog d)) :
    jumpOver pass bitmap (addr prog d) = BitVec.ofNat 32 (gap prog bitmap d t) := by
  have short := accepted.short
  have bound := addr_le prog t
  simp only [skip, bpfMaxInsns] at bound short
  have less := addr_lt accepted ahead (Nat.le_of_lt inside)
  have offset := emit_jmp_int prog t _ (by simp only [bpfMaxInsns]; omega) less
  have counted := count_span bitmap (addr prog d) (addr prog t) (Nat.le_of_lt less)
  have head : span bitmap.has (addr prog d) (addr prog t) =
      1 + span bitmap.has (addr prog d + 1) (addr prog t) := by
    rw [Compact.span_split bitmap.has (show addr prog d ≤ addr prog d + 1 by omega) less,
      Compact.span_one, if_pos clear]
  unfold jumpOver gap
  dsimp only
  rw [fold, Nat.add_zero, off, offset,
    u32_of_nat (addr prog d + 1 + (addr prog t - (addr prog d : Int) - 1)) (addr prog t) (by omega)
      (by omega)]
  apply BitVec.eq_of_toNat_eq
  rw [BitVec.toNat_ofInt, BitVec.toNat_ofNat]
  omega

theorem ja_distance_span {bitmap : Bitmap} {idx t : Nat} (inside : t < prog.length)
    (before : idx < addr prog t) (off : (pass.ebpfs idx).off = emitJmp (addr prog) t idx) :
    jaDistance pass bitmap idx = span bitmap.has idx (addr prog t) := by
  have short := accepted.short
  have bound := addr_le prog t
  simp only [skip, bpfMaxInsns] at bound short
  have offset := emit_jmp_int prog t idx (by simp only [bpfMaxInsns]; omega) before
  have counted := count_span bitmap idx (addr prog t) (Nat.le_of_lt before)
  unfold jaDistance
  dsimp only
  rw [off, offset, u32_of_nat (idx + (addr prog t - (idx : Int) - 1) + 1) (addr prog t) (by omega)
    (by omega)]
  exact u32_of_nat _ _ (by omega) (by omega)

theorem gap_le {bitmap : Bitmap} (bits : GroupBits prog bitmap) {t : Nat} (ahead : d < t)
    (inside : t < prog.length) : gap prog bitmap d t ≤ t - d - 1 := by
  have bound := span_groups_le accepted bits (Nat.le_of_lt ahead) (Nat.le_of_lt inside)
  unfold gap
  omega

theorem gap_next {bitmap : Bitmap} (bits : GroupBits prog bitmap) (inside : d < prog.length)
    (clear : bitmap.has (addr prog d) = false) : gap prog bitmap d (d + 1) = 0 := by
  rw [gap, span_group accepted bits inside, if_pos clear]

include state

theorem eaten_deleted (inside : d < prog.length) (eats : eaten prog d = true) :
    pass.bitmap.has (addr prog d) = true := by
  rw [state.deleted]
  refine ⟨addr_lt accepted inside (Nat.le_refl _), ?_⟩
  intro e bound uneaten same
  rw [← addr_inj accepted (Nat.le_of_lt inside) (Nat.le_of_lt bound) same, eats] at uneaten
  cases uneaten

include here kept

omit kept in
theorem relocated_write {reloc : Reloc} (before : RelocatedFrom prog pass (d + 1) reloc)
    (f : Filter) (values : List Nat)
    (meaning : insn.Relocates prog reloc.bitmap d f)
    (fits : ∀ value ∈ values, value ≤ 255) :
    RelocatedFrom prog pass d
      ⟨reloc.bitmap, Function.update reloc.buf (addr prog d) f, values ++ reloc.stored⟩ := by
  have inside := insn_inside here
  have less := addr_lt accepted (show d < d + 1 by omega) (show d + 1 ≤ prog.length by omega)
  have apart (e : Nat) (later : d < e) (bound : e < prog.length) :
      addr prog e ≠ addr prog d :=
    Nat.ne_of_gt (addr_lt accepted later (Nat.le_of_lt bound))
  refine ⟨before.bits, fun idx le => before.below idx (by omega), before.rets, ?_, ?_, ?_, ?_⟩
  · intro idx low
    dsimp only
    rw [Function.update_of_ne (Nat.ne_of_lt low)]
    exact before.untouched idx (by omega)
  · intro e other le uneaten there
    rcases Nat.eq_or_lt_of_le le with rfl | later
    · rw [here] at there
      cases there
      simpa using meaning
    · dsimp only
      rw [Function.update_of_ne (apart e later (insn_inside there))]
      exact before.done e other later uneaten there
  · intro e k later eats there clear
    dsimp only
    rw [Function.update_of_ne (apart e later (insn_inside there))]
    rcases Nat.eq_or_lt_of_le (show d + 1 ≤ e from later) with rfl | beyond
    · -- the filter right behind is only restored when `d` is relocated
      rw [before.below _ (Nat.le_refl _), eaten_deleted accepted state (insn_inside there) eats]
        at clear
      cases clear
    · exact before.restored e k beyond eats there clear
  · intro value member
    rcases List.mem_append.mp member with new | old
    · exact fits value new
    · exact before.fits value old

omit state kept in
theorem relocated_split {reloc : Reloc} (before : RelocatedFrom prog pass (d + 1) reloc)
    (k : Word) (there : insnAt prog (d + 1) = some (.ja k)) (f g : Filter) (values : List Nat)
    (meaning : insn.Relocates prog (clearbit reloc.bitmap (addr prog (d + 1))) d f)
    (split : (Insn.ja k).Relocates prog (clearbit reloc.bitmap (addr prog (d + 1))) (d + 1) g)
    (fits : ∀ value ∈ values, value ≤ 255) (eats : eaten prog (d + 1) = true) :
    RelocatedFrom prog pass d
      ⟨clearbit reloc.bitmap (addr prog (d + 1)),
        Function.update (Function.update reloc.buf (addr prog d) f) (addr prog (d + 1)) g,
        values ++ reloc.stored⟩ := by
  have inside := insn_inside there
  have less := addr_lt accepted (show d < d + 1 by omega) (show d + 1 ≤ prog.length by omega)
  -- the starts of groups are apart, and only the bit of the JA was cleared
  have apart (e e' : Nat) (later : e < e') (bound : e' < prog.length) :
      addr prog e' ≠ addr prog e :=
    Nat.ne_of_gt (addr_lt accepted later (Nat.le_of_lt bound))
  have other (idx : Nat) (different : idx ≠ addr prog (d + 1)) :
      (clearbit reloc.bitmap (addr prog (d + 1))).has idx = reloc.bitmap.has idx := by
    simp [has_clearbit, different]
  have beyond (e : Nat) (later : d + 1 < e) (bound : e < prog.length) (insn : Insn) (f : Filter) :
      insn.Relocates prog (clearbit reloc.bitmap (addr prog (d + 1))) e f ↔
        insn.Relocates prog reloc.bitmap e f :=
    relocates_congr (fun i above => other i (by
      have := addr_lt accepted later (Nat.le_of_lt bound)
      omega)) insn f
  refine ⟨group_bits_clear before.bits inside, ?_, ?_, ?_, ?_, ?_, ?_⟩
  · intro idx le
    rw [other idx (by omega)]
    exact before.below idx (by omega)
  · intro e bound eaten ret
    have different : e ≠ d + 1 := by
      rintro rfl
      rw [there] at ret
      cases ret
    rw [other _ fun same => different (addr_inj accepted (by omega) (by omega) same)]
    exact before.rets e bound eaten ret
  · intro idx low
    dsimp only
    rw [Function.update_of_ne (by omega), Function.update_of_ne (by omega)]
    exact before.untouched idx (by omega)
  · intro e insn' le uneaten found
    rcases Nat.eq_or_lt_of_le le with rfl | later
    · rw [here] at found
      cases found
      dsimp only
      rw [Function.update_of_ne (Nat.ne_of_lt less), Function.update_self]
      exact meaning
    · have far : d + 1 < e := by
        rcases Nat.eq_or_lt_of_le (show d + 1 ≤ e from later) with rfl | far
        · rw [eats] at uneaten
          cases uneaten
        · exact far
      have bound := insn_inside found
      dsimp only
      rw [Function.update_of_ne (apart _ e far bound), Function.update_of_ne (apart d e later bound),
        beyond e far bound]
      exact before.done e insn' later uneaten found
  · intro e k' later eaten found clear
    have bound := insn_inside found
    rcases Nat.eq_or_lt_of_le (show d + 1 ≤ e from later) with rfl | far
    · rw [there] at found
      cases found
      dsimp only
      rw [Function.update_self]
      exact split
    · dsimp only at clear
      rw [other _ (apart _ e far bound)] at clear
      dsimp only
      rw [Function.update_of_ne (apart _ e far bound), Function.update_of_ne (apart d e later bound),
        beyond e far bound]
      exact before.restored e k' far eaten found clear
  · intro value member
    rcases List.mem_append.mp member with new | old
    · exact fits value new
    · exact before.fits value old

end Relocation

section Group

variable {prog : List Filter} (accepted : Accepted prog) {ebpfs : Nat → BpfInsn} {pass : Pass}
variable (state : AtGroup prog ebpfs prog.length pass) {d : Nat}
variable (kept : eaten prog d = false)
variable {reloc : Reloc} (before : RelocatedFrom prog pass (d + 1) reloc)

include accepted state kept before

theorem relocate_start {insn : Insn} (here : insnAt prog d = some insn) :
    (reloc.buf (addr prog d)).insn? = some (insn.folded (swallows prog d)) ∧
      (pass.flags (addr prog d)).fold.toNat = insn.fold ∧
      reloc.bitmap.has (addr prog d) = false := by
  have inside := insn_inside here
  have less := addr_lt accepted (show d < d + 1 by omega) (show d + 1 ≤ prog.length by omega)
  rw [before.untouched _ less]
  exact ⟨state.written d insn inside kept here, state.folds d insn inside kept here,
    before.bits.starts d inside kept⟩

theorem relocate_plain {insn : Insn} (here : insnAt prog d = some insn)
    (straight : bpfClass (insn.folded (swallows prog d)).code ≠ 0x05)
    (same : ∀ f : Filter, f.insn? = some (insn.folded (swallows prog d)) →
      insn.Relocates prog reloc.bitmap d f) :
    RelocatedFrom prog pass d (relocate pass (addr prog d) reloc) := by
  obtain ⟨meaning, _, _⟩ := relocate_start accepted state kept before here
  have class_ : bpfClass (reloc.buf (addr prog d)).code ≠ 0x05 := by
    rw [insn_code _ _ meaning]
    exact straight
  have left : relocate pass (addr prog d) reloc = reloc := by
    rw [relocate, if_pos class_]
  have write := relocated_write accepted state here before (reloc.buf (addr prog d)) []
    (same _ meaning) nofun
  rw [Function.update_eq_self] at write
  rw [left]
  exact write

theorem relocate_ja (migrated : Migrated prog pass.ebpfs) (k : Word)
    (here : insnAt prog d = some (.ja k)) :
    RelocatedFrom prog pass d (relocate pass (addr prog d) reloc) := by
  obtain ⟨meaning, fold, clear⟩ := relocate_start accepted state kept before here
  have inside := insn_inside here
  have target := (flagged_inside accepted (c := d) (t := d + 1 + k.toNat)
    (by simp [flaggedAt, here, Insn.flagged])).2
  have less := addr_lt accepted (show d < d + 1 + k.toNat by omega) (Nat.le_of_lt target)
  have next := addr_lt accepted (show d < d + 1 by omega) (show d + 1 ≤ prog.length by omega)
  obtain ⟨noJt, noJf⟩ := state.jas d k inside kept here
  rw [← before.untouched _ next] at noJt noJf
  have code : (reloc.buf (addr prog d)).code = 0x05 := insn_code _ _ meaning
  have first := ja_first migrated k d here
  have gap : jumpOver pass reloc.bitmap (addr prog d) =
      BitVec.ofNat 32 (gap prog reloc.bitmap d (d + 1 + k.toNat)) :=
    jump_over_gap accepted (by omega) target clear fold (by rw [first])
  have moved : relocate pass (addr prog d) reloc =
      ⟨reloc.bitmap, Function.update reloc.buf (addr prog d)
        { reloc.buf (addr prog d) with k := jumpOver pass reloc.bitmap (addr prog d) },
        [] ++ reloc.stored⟩ := by
    simp [relocate, code, bpfClass, noJt, noJf]
  rw [moved]
  refine relocated_write accepted state here before _ [] ?_ (by simp)
  refine ⟨jumpOver pass reloc.bitmap (addr prog d), by rw [Filter.insn?, code]; rfl, ?_⟩
  rw [gap, BitVec.toNat_ofNat]
  have bound := gap_le accepted before.bits (show d < d + 1 + k.toNat by omega) target
  have word := k.isLt
  omega

section Jmp

variable (migrated : Migrated prog pass.ebpfs) {op : JmpOp} {src : Src} {jt jf : BitVec 8}
variable (here : insnAt prog d = some (.jmp op src jt jf))

include migrated here

theorem relocate_inverted (form : jmpForm op jt jf = .inverted) :
    RelocatedFrom prog pass d (relocate pass (addr prog d) reloc) := by
  obtain ⟨meaning, fold, clear⟩ := relocate_start accepted state kept before here
  obtain ⟨k, _, _, jump, _⟩ := jmp_group migrated op src jt jf here
  obtain ⟨mask, trueIn, falseIn⟩ := accepted_admissible accepted here
  obtain ⟨falls, noJt, _⟩ := jmp_form_inverted op jt jf form
  have inside := insn_inside here
  have width := addr_next here
  simp only [Insn.groupSize, form, JmpForm.size] at width
  have later := addr_mono prog (show d + 1 ≤ d + 1 + jf.toNat by omega)
  simp only [Insn.folded, form] at meaning
  simp only [Insn.fold] at fold
  simp only [form] at jump
  obtain ⟨jtField, jfField, class_, moved⟩ := jmp_fields meaning
  have dist : distance pass reloc.bitmap (addr prog d) =
      gap prog reloc.bitmap d (d + 1 + jf.toNat) :=
    distance_gap accepted (by omega) (by omega) clear (by rw [fold]; omega)
      (by rw [fold, jump, jump_insn_off])
  have stays : swallows prog d = false := not_swallows here fun next => by
    rw [Insn.mayEat, beq_false_of_ne falls]
    rfl
  have bound := gap_le accepted before.bits (show d < d + 1 + jf.toNat by omega) (by omega)
  have byte := jf.isLt
  have step : relocate pass (addr prog d) reloc =
      ⟨reloc.bitmap, Function.update reloc.buf (addr prog d)
        { reloc.buf (addr prog d) with
          jf := BitVec.ofNat 8 (gap prog reloc.bitmap d (d + 1 + jf.toNat)) },
        [gap prog reloc.bitmap d (d + 1 + jf.toNat)] ++ reloc.stored⟩ := by
    simp [relocate, class_, jtField, jfField, dist]
  rw [step]
  refine relocated_write accepted state here before _ _ ?_ ?_
  · have written := moved 0 (BitVec.ofNat 8 (gap prog reloc.bitmap d (d + 1 + jf.toNat)))
    rw [← jtField] at written
    refine ⟨_, _, written, ?_, ?_⟩
    · rw [jtField, noJt]
      exact (gap_next accepted before.bits inside clear).symm
    · rw [falseTarget, if_neg (by simp [stays]), BitVec.toNat_ofNat]
      omega
  · intro value member
    simp only [List.mem_singleton] at member
    omega

theorem relocate_both (form : jmpForm op jt jf = .both) :
    RelocatedFrom prog pass d (relocate pass (addr prog d) reloc) := by
  obtain ⟨meaning, fold, clear⟩ := relocate_start accepted state kept before here
  obtain ⟨k, _, _, jump, ja⟩ := jmp_group migrated op src jt jf here
  obtain ⟨mask, trueIn, falseIn⟩ := accepted_admissible accepted here
  have falls := jmp_form_both op jt jf form
  have ja := ja form
  have inside := insn_inside here
  have width := addr_next here
  simp only [Insn.groupSize, form, JmpForm.size] at width
  have beyond (n : Nat) := addr_mono prog (show d + 1 ≤ d + 1 + n by omega)
  have laterTrue := beyond jt.toNat
  have laterFalse := beyond jf.toNat
  simp only [Insn.folded, form] at meaning
  simp only [Insn.fold] at fold
  simp only [form] at jump
  obtain ⟨jtField, jfField, class_, moved⟩ := jmp_fields meaning
  have dist : distance pass reloc.bitmap (addr prog d) =
      gap prog reloc.bitmap d (d + 1 + jt.toNat) :=
    distance_gap accepted (by omega) (by omega) clear (by rw [fold]; omega)
      (by rw [fold, jump, jump_insn_off])
  have stays : swallows prog d = false := not_swallows here fun next => by
    rw [Insn.mayEat, beq_false_of_ne falls]
    rfl
  have jaDist : jaDistance pass reloc.bitmap (addr prog d + src.fold + 1) =
      span reloc.bitmap.has (addr prog d + src.fold + 1) (addr prog (d + 1 + jf.toNat)) :=
    ja_distance_span accepted (by omega) (by omega) (by rw [ja])
  -- up to the JA only the jump itself is kept
  have head : span reloc.bitmap.has (addr prog d + src.fold + 1) (addr prog (d + 1 + jf.toNat)) =
      gap prog reloc.bitmap d (d + 1 + jf.toNat) := by
    rw [gap, Compact.span_split reloc.bitmap.has
      (show addr prog d ≤ addr prog d + src.fold + 1 by omega) (by omega),
      Compact.span_head reloc.bitmap.has clear (by omega)
        (fun i above below => inner_deleted before.bits inside i above (by omega))]
    omega
  rw [head] at jaDist
  have trueBound := gap_le accepted before.bits (show d < d + 1 + jt.toNat by omega) (by omega)
  have falseBound := gap_le accepted before.bits (show d < d + 1 + jf.toNat by omega) (by omega)
  have trueByte := jt.isLt
  have falseByte := jf.isLt
  have short : ¬ 255 < gap prog reloc.bitmap d (d + 1 + jf.toNat) := by omega
  have step : relocate pass (addr prog d) reloc =
      ⟨reloc.bitmap, Function.update reloc.buf (addr prog d)
        { reloc.buf (addr prog d) with
          jt := BitVec.ofNat 8 (gap prog reloc.bitmap d (d + 1 + jt.toNat))
          jf := BitVec.ofNat 8 (gap prog reloc.bitmap d (d + 1 + jf.toNat)) },
        [gap prog reloc.bitmap d (d + 1 + jt.toNat), gap prog reloc.bitmap d (d + 1 + jf.toNat)] ++
          reloc.stored⟩ := by
    simp [relocate, class_, jtField, jfField, dist, fold, jaDist, short]
  rw [step]
  refine relocated_write accepted state here before _ _ ?_ ?_
  · refine ⟨_, _, moved _ _, ?_, ?_⟩
    · rw [BitVec.toNat_ofNat]
      omega
    · rw [falseTarget, if_neg (by simp [stays]), BitVec.toNat_ofNat]
      omega
  · intro value member
    simp only [List.mem_cons, List.not_mem_nil, or_false] at member
    omega

theorem taken_start (form : jmpForm op jt jf = .taken) :
    addr prog (d + 1) = addr prog d + src.fold + 1 ∧ jf = 0 ∧
      d + 1 + jt.toNat < prog.length ∧
      ∀ bitmap : Bitmap, bitmap.has (addr prog d) = false →
        distance pass bitmap (addr prog d) = gap prog bitmap d (d + 1 + jt.toNat) := by
  obtain ⟨_, fold, _⟩ := relocate_start accepted state kept before here
  obtain ⟨k, _, _, jump, _⟩ := jmp_group migrated op src jt jf here
  obtain ⟨mask, trueIn, _⟩ := accepted_admissible accepted here
  have width := addr_next here
  simp only [Insn.groupSize, form, JmpForm.size] at width
  have later := addr_mono prog (show d + 1 ≤ d + 1 + jt.toNat by omega)
  simp only [Insn.fold] at fold
  simp only [form] at jump
  refine ⟨by omega, (jmp_form_taken op jt jf).mp form, by omega, fun bitmap clear => ?_⟩
  exact distance_gap accepted (by omega) (by omega) clear (by rw [fold]; omega)
    (by rw [fold, jump, jump_insn_off])

theorem relocate_taken (form : jmpForm op jt jf = .taken) (stays : swallows prog d = false) :
    RelocatedFrom prog pass d (relocate pass (addr prog d) reloc) := by
  obtain ⟨meaning, _, clear⟩ := relocate_start accepted state kept before here
  obtain ⟨_, falls, trueIn, dist⟩ := taken_start accepted state kept before migrated here form
  have inside := insn_inside here
  have bound := gap_le accepted before.bits (show d < d + 1 + jt.toNat by omega) trueIn
  have byte := jt.isLt
  simp only [Insn.folded, form, stays, Bool.false_eq_true, ↓reduceIte] at meaning
  obtain ⟨jtField, jfField, class_, moved⟩ := jmp_fields meaning
  have step : relocate pass (addr prog d) reloc =
      ⟨reloc.bitmap, Function.update reloc.buf (addr prog d)
        { reloc.buf (addr prog d) with
          jt := BitVec.ofNat 8 (gap prog reloc.bitmap d (d + 1 + jt.toNat)) },
        [gap prog reloc.bitmap d (d + 1 + jt.toNat)] ++ reloc.stored⟩ := by
    simp [relocate, class_, jtField, jfField, dist _ clear]
  rw [step]
  refine relocated_write accepted state here before _ _ ?_ ?_
  · have written := moved (BitVec.ofNat 8 (gap prog reloc.bitmap d (d + 1 + jt.toNat))) 0
    rw [← jfField] at written
    refine ⟨_, _, written, ?_, ?_⟩
    · rw [BitVec.toNat_ofNat]
      omega
    · rw [falseTarget, if_neg (by simp [stays]), jfField, falls]
      exact (gap_next accepted before.bits inside clear).symm
  · intro value member
    simp only [List.mem_singleton] at member
    omega

/-- The jump has taken over the JA behind it: it keeps it if the distance fits,
and gives it back otherwise. -/
theorem relocate_swallowing (form : jmpForm op jt jf = .taken) (eats : swallows prog d = true) :
    RelocatedFrom prog pass d (relocate pass (addr prog d) reloc) := by
  obtain ⟨meaning, fold, clear⟩ := relocate_start accepted state kept before here
  obtain ⟨next, falls, trueIn, dist⟩ := taken_start accepted state kept before migrated here form
  have inside := insn_inside here
  simp only [Insn.folded, form, eats, ↓reduceIte] at meaning
  simp only [Insn.fold] at fold
  obtain ⟨jtField, jfField, class_, moved⟩ := jmp_fields meaning
  obtain ⟨k, there⟩ : ∃ k, insnAt prog (d + 1) = some (.ja k) := by
    obtain ⟨insn, other, here', there, may, _⟩ := eaten_cases (c := d) eats
    rw [here] at here'
    cases here'
    cases other <;> simp [Insn.mayEat, Insn.isJa] at may
    exact ⟨_, there⟩
  have jaIn := (flagged_inside accepted (c := d + 1) (t := d + 1 + 1 + k.toNat)
    (by simp [flaggedAt, there, Insn.flagged])).2
  have jaLess := addr_lt accepted (show d + 1 < d + 1 + 1 + k.toNat by omega) (Nat.le_of_lt jaIn)
  -- until now the JA counts as deleted
  have marked : reloc.bitmap.has (addr prog (d + 1)) = true := by
    rw [before.below _ (Nat.le_refl _)]
    exact eaten_deleted accepted state (insn_inside there) eats
  have less := addr_lt accepted (show d < d + 1 by omega) (Nat.le_of_lt (insn_inside there))
  have jaDist : jaDistance pass reloc.bitmap (addr prog (d + 1)) =
      span reloc.bitmap.has (addr prog (d + 1)) (addr prog (d + 1 + 1 + k.toNat)) :=
    ja_distance_span accepted jaIn jaLess (by rw [ja_first migrated k (d + 1) there])
  have head : span reloc.bitmap.has (addr prog (d + 1)) (addr prog (d + 1 + 1 + k.toNat)) =
      gap prog reloc.bitmap d (d + 1 + 1 + k.toNat) := by
    rw [gap, Compact.span_split reloc.bitmap.has (Nat.le_of_lt less) (Nat.le_of_lt jaLess),
      span_group accepted before.bits inside, if_pos clear]
    omega
  have trueByte := jt.isLt
  by_cases fits : gap prog reloc.bitmap d (d + 1 + 1 + k.toNat) ≤ 255
  · have short : ¬ 255 < gap prog reloc.bitmap d (d + 1 + 1 + k.toNat) := by omega
    have step : relocate pass (addr prog d) reloc =
        ⟨reloc.bitmap, Function.update reloc.buf (addr prog d)
          { reloc.buf (addr prog d) with
            jt := BitVec.ofNat 8 (gap prog reloc.bitmap d (d + 1 + jt.toNat))
            jf := BitVec.ofNat 8 (gap prog reloc.bitmap d (d + 1 + 1 + k.toNat)) },
          [gap prog reloc.bitmap d (d + 1 + jt.toNat),
            gap prog reloc.bitmap d (d + 1 + 1 + k.toNat)] ++ reloc.stored⟩ := by
      simp [relocate, class_, jtField, jfField, dist _ clear, fold, ← next, jaDist, head, short]
    rw [step]
    have bound := gap_le accepted before.bits (show d < d + 1 + jt.toNat by omega) trueIn
    refine relocated_write accepted state here before _ _ ?_ ?_
    · refine ⟨_, _, moved _ _, ?_, ?_⟩
      · rw [BitVec.toNat_ofNat]
        omega
      · rw [falseTarget, if_pos ⟨eats, marked⟩, jaTarget, there, BitVec.toNat_ofNat]
        dsimp only
        omega
    · intro value member
      simp only [List.mem_cons, List.not_mem_nil, or_false] at member
      omega
  · have long : 255 < gap prog reloc.bitmap d (d + 1 + 1 + k.toNat) := by omega
    -- its bit is cleared first, and the distance of the jump then counts it
    have restored : (clearbit reloc.bitmap (addr prog (d + 1))).has (addr prog (d + 1)) = false := by
      simp [has_clearbit]
    have clear' : (clearbit reloc.bitmap (addr prog (d + 1))).has (addr prog d) = false := by
      simp [has_clearbit, clear]
    have bits' := group_bits_clear before.bits (insn_inside there)
    have jaGap : gap prog (clearbit reloc.bitmap (addr prog (d + 1))) (d + 1)
        (d + 1 + 1 + k.toNat) = gap prog reloc.bitmap d (d + 1 + 1 + k.toNat) := by
      have one : addr prog (d + 1) ≤ addr prog (d + 1) + 1 := by omega
      have behind : span (clearbit reloc.bitmap (addr prog (d + 1))).has (addr prog (d + 1) + 1)
          (addr prog (d + 1 + 1 + k.toNat)) =
            span reloc.bitmap.has (addr prog (d + 1) + 1) (addr prog (d + 1 + 1 + k.toNat)) :=
        Compact.span_congr fun i above _ => by
          simp [has_clearbit, show i ≠ addr prog (d + 1) by omega]
      rw [← head, gap, Compact.span_split _ one jaLess, Compact.span_split reloc.bitmap.has one jaLess,
        Compact.span_one, Compact.span_one, if_pos restored, behind, marked]
      simp
    have step : relocate pass (addr prog d) reloc =
        ⟨clearbit reloc.bitmap (addr prog (d + 1)),
          Function.update (Function.update reloc.buf (addr prog d)
            { reloc.buf (addr prog d) with
              jt := BitVec.ofNat 8 (gap prog (clearbit reloc.bitmap (addr prog (d + 1))) d
                (d + 1 + jt.toNat))
              jf := 0 })
            (addr prog (d + 1))
            (cbpfJmp 0x05 (BitVec.ofNat 32 (gap prog reloc.bitmap d (d + 1 + 1 + k.toNat))) 0 0),
          [gap prog (clearbit reloc.bitmap (addr prog (d + 1))) d (d + 1 + jt.toNat)] ++
            reloc.stored⟩ := by
      simp [relocate, class_, jtField, jfField, dist _ clear', fold, ← next, jaDist, head, long]
    rw [step]
    have bound := gap_le accepted bits' (show d < d + 1 + jt.toNat by omega) trueIn
    refine relocated_split accepted here before k there _ _ _ ?_ ?_ ?_ eats
    · refine ⟨_, _, moved _ _, ?_, ?_⟩
      · rw [BitVec.toNat_ofNat]
        omega
      · rw [falseTarget, if_neg (by simp [restored]), falls]
        exact (gap_next accepted bits' inside clear').symm
    · refine ⟨_, rfl, ?_⟩
      rw [jaGap]
      dsimp only [cbpfJmp]
      rw [BitVec.toNat_ofNat]
      have far := gap_le accepted before.bits (show d < d + 1 + 1 + k.toNat by omega) jaIn
      have word := k.isLt
      have short := accepted.short
      simp only [bpfMaxInsns] at short
      omega
    · intro value member
      simp only [List.mem_singleton] at member
      omega

end Jmp

end Group

theorem folded_class (swallowed : Bool) (insn : Insn) (still : insn.isJa = false)
    (other : ∀ op src jt jf, insn ≠ .jmp op src jt jf) :
    bpfClass (insn.folded swallowed).code ≠ 0x05 := by
  cases insn with
  | ja k => cases still
  | jmp op src jt jf => exact absurd rfl (other op src jt jf)
  | alu op src =>
      have bit : src.bit = 0x00 ∨ src.bit = 0x08 := by cases src <;> simp [Src.bit]
      rcases bit with bit | bit <;> cases op <;>
        simp [Insn.folded, Insn.code, bit, AluOp.bits, bpfClass]
  | ldImm dst k =>
      by_cases len : k = seccompDataLen <;> cases dst <;> cases swallowed <;>
        simp [Insn.folded, len, Insn.code, bpfClass, Reg.ldClass]
  | ldLen dst =>
      cases dst <;> cases swallowed <;> simp [Insn.folded, Insn.code, bpfClass, Reg.ldClass]
  | ldMem dst k => cases dst <;> simp [Insn.folded, Insn.code, bpfClass, Reg.ldClass]
  | st src k => cases src <;> simp [Insn.folded, Insn.code, bpfClass, Reg.stClass]
  | ldAbs k | neg | tax | txa | retA | retK k => simp [Insn.folded, Insn.code, bpfClass]

section Loop

variable {prog : List Filter} (accepted : Accepted prog) {ebpfs : Nat → BpfInsn} {pass : Pass}
variable (state : AtGroup prog ebpfs prog.length pass) (migrated : Migrated prog pass.ebpfs)

include accepted state migrated

theorem relocate_group {d : Nat} (inside : d < prog.length) (kept : eaten prog d = false)
    {reloc : Reloc} (before : RelocatedFrom prog pass (d + 1) reloc) :
    RelocatedFrom prog pass d (relocate pass (addr prog d) reloc) := by
  obtain ⟨insn, here⟩ := accepted_insn accepted inside
  have plain (still : insn.isJa = false) (other : ∀ op src jt jf, insn ≠ .jmp op src jt jf)
      (same : ∀ f : Filter, f.insn? = some (insn.folded (swallows prog d)) →
        insn.Relocates prog reloc.bitmap d f) :=
    relocate_plain accepted state kept before here (folded_class _ insn still other) same
  cases insn with
  | ja k => exact relocate_ja accepted state kept before migrated k here
  | jmp op src jt jf =>
      cases form : jmpForm op jt jf with
      | taken =>
          cases eats : swallows prog d with
          | true => exact relocate_swallowing accepted state kept before migrated here form eats
          | false => exact relocate_taken accepted state kept before migrated here form eats
      | inverted => exact relocate_inverted accepted state kept before migrated here form
      | both => exact relocate_both accepted state kept before migrated here form
  | ldAbs k | ldLen dst | ldImm dst k | ldMem dst k | st src k | alu op src | neg | tax | txa
  | retA | retK k => exact plain rfl nofun fun _ meaning => meaning

omit migrated in
theorem eaten_group {d : Nat} (inside : d < prog.length) (eats : eaten prog d = true)
    {reloc : Reloc} (before : RelocatedFrom prog pass (d + 1) reloc) :
    RelocatedFrom prog pass d reloc := by
  have less := addr_lt accepted (show d < d + 1 by omega) (show d + 1 ≤ prog.length by omega)
  refine ⟨before.bits, fun idx le => before.below idx (by omega), before.rets,
    fun idx low => before.untouched idx (by omega), ?_, ?_, before.fits⟩
  · intro e insn le uneaten there
    rcases Nat.eq_or_lt_of_le le with rfl | later
    · rw [eats] at uneaten
      cases uneaten
    · exact before.done e insn later uneaten there
  · intro e k later eaten there clear
    rcases Nat.eq_or_lt_of_le (show d + 1 ≤ e from later) with rfl | beyond
    · rw [before.below _ (Nat.le_refl _), eaten_deleted accepted state (insn_inside there) eaten]
        at clear
      cases clear
    · exact before.restored e k beyond eaten there clear

theorem relocate_all_from (d : Nat) (inside : d ≤ prog.length) (reloc : Reloc)
    (before : RelocatedFrom prog pass d reloc) :
    RelocatedFrom prog pass 0 (relocateAll pass (addr prog d - 1) reloc) := by
  induction d generalizing reloc with
  | zero => exact before
  | succ d ih =>
      have start := skip_le_addr prog d
      simp only [skip] at start
      have less := addr_lt accepted (show d < d + 1 by omega) inside
      have inner := inner_deleted before.bits (show d < prog.length by omega)
      have passed := relocate_all_deleted pass (addr prog d) (addr prog (d + 1) - 1 - addr prog d)
        reloc (by simp only [skip]; omega) (fun j above below => inner j above (by omega))
      rw [show addr prog d + (addr prog (d + 1) - 1 - addr prog d) = addr prog (d + 1) - 1 by omega]
        at passed
      have unfolded : relocateAll pass (addr prog d) reloc = relocateAll pass (addr prog d - 1)
          (if reloc.bitmap.has (addr prog d) then reloc else relocate pass (addr prog d) reloc) := by
        obtain ⟨i, same⟩ : ∃ i, addr prog d = i + 1 := ⟨addr prog d - 1, by omega⟩
        rw [same, relocateAll, if_pos (by simp only [skip]; omega)]
        rfl
      rw [passed, unfolded]
      apply ih (by omega)
      cases eats : eaten prog d with
      | false =>
          rw [before.bits.starts d (by omega) eats]
          exact relocate_group accepted state migrated (by omega) eats before
      | true =>
          rw [before.below _ (by omega), eaten_deleted accepted state (by omega) eats]
          exact eaten_group accepted state (by omega) eats before

theorem second_pass_relocated (_ : 0 < prog.length) :
    let last := addr prog prog.length - 1
    RelocatedFrom prog pass 0 (secondPass pass last
      ⟨last / u32Bits, 1#32 <<< (last % u32Bits), pass.bitmap (last / u32Bits)⟩
      ⟨pass.bitmap, pass.buf, []⟩) := by
  intro last
  have cursor : Cursor.At ⟨last / u32Bits, 1#32 <<< (last % u32Bits), pass.bitmap (last / u32Bits)⟩
      pass.bitmap last := by
    refine ⟨rfl, rfl, fun j le word => ?_⟩
    rw [Bitmap.has, show j / u32Bits = last / u32Bits from word]
    rfl
  rw [second_pass_uncached pass last _ _ cursor]
  apply relocate_all_from accepted state migrated prog.length (Nat.le_refl _)
  refine ⟨⟨?_, ?_⟩, fun _ _ => rfl, ?_, fun _ _ => rfl, ?_, ?_, by simp⟩
  · intro idx bound inner
    exact (state.deleted idx).mpr ⟨bound, fun d less _ => inner d less⟩
  · intro d bound uneaten
    rw [Bool.eq_false_iff, ne_eq, state.deleted]
    exact fun both => both.2 d bound uneaten rfl
  · intro d bound eats _
    exact eaten_deleted accepted state bound eats
  · intro d insn le _ here
    have := insn_inside here
    omega
  · intro d k less _ here
    have := insn_inside here
    omega

end Loop

end Ceccomp
