import Ceccomp.Bpf.Filter
import Ceccomp.Ebpf.Bitmap

/-!
`ebpf2cbpf` of `utils/bpf_trans.c`: three passes over the eBPF a classic filter
was migrated to. The first folds patterns of eBPF instructions into one filter
each and marks the folded ones in the bitmap, the second relocates the jumps,
the third drops the marked filters. Arrays are functions of the index; what lies
behind their end is whatever memory holds.
-/

namespace Ceccomp

structure BpfInsn where
  code : BitVec 8
  dstReg : BitVec 4
  srcReg : BitVec 4
  off : BitVec 16
  imm : Word
  deriving DecidableEq, Repr, Inhabited

def bpfRegA : BitVec 4 := 0
def bpfRegArg1 : BitVec 4 := 1
def bpfRegTmp : BitVec 4 := 2
def bpfRegCtx : BitVec 4 := 6
def bpfRegX : BitVec 4 := 7
def bpfRegFp : BitVec 4 := 10
def bpfRegAx : BitVec 4 := 11

def BpfInsn.cls (insn : BpfInsn) : BitVec 8 := insn.code &&& 0x07#8
def BpfInsn.op (insn : BpfInsn) : BitVec 8 := insn.code &&& 0xf0#8
def BpfInsn.src (insn : BpfInsn) : BitVec 8 := insn.code &&& 0x08#8

def cbpfStmt (code : BitVec 16) (k : Word) : Filter := { code, jt := 0, jf := 0, k }

def cbpfJmp (code : BitVec 16) (k : Word) (jt jf : BitVec 8) : Filter := { code, jt, jf, k }

structure InsnFlag where
  fold : BitVec 3
  targeted : Bool
  deriving DecidableEq, Repr, Inhabited

abbrev Flags := Nat → InsnFlag

def flagIdx (base : Nat) (delta : Int) : Nat := ((base : Int) + delta).toNat

def Flags.target (flags : Flags) (idx : Nat) : Flags :=
  Function.update flags idx { flags idx with targeted := true }

def Flags.addFold (flags : Flags) (idx : Nat) (count : BitVec 3) : Flags :=
  Function.update flags idx { flags idx with fold := (flags idx).fold + count }

abbrev Folded := Filter × Nat × Flags

/-- `jmp_insn` on path `NOT_CHECK`: `r` is the instruction to read, `w` the flag
of the instruction to write. -/
def jmpNotCheck (ebpfs : Nat → BpfInsn) (r : Nat) (largeK : Word) (ate : Nat) (flags : Flags)
    (w : Nat) : Except String Folded :=
  let insn := ebpfs r
  if insn.op = 0x90 then .ok (cbpfStmt 0x16 0, ate, flags)
  else if insn.op = 0x00 then
    .ok (cbpfJmp 0x05 1 0 0, ate, flags.target (flagIdx w (insn.off.toInt + 1)))
  else
    -- a large K was moved to TMP by the kernel, put it back
    let k := if largeK ≠ 0 then largeK else insn.imm
    let code := (if largeK ≠ 0 then insn.code &&& ~~~0x08#8 else insn.code).setWidth 16
    let flags := flags.target (flagIdx w ((flags w).fold.toNat + insn.off.toInt + 1))
    let ja := w + (flags w).fold.toNat + 1
    if (ebpfs (r + 1)).code = 0x05 ∧ (flags ja).targeted = false ∧
        insn.op ≠ 0x50 ∧ insn.op ≠ 0xb0 ∧ insn.op ≠ 0xa0 then
      .ok (cbpfJmp code k 1 1, ate + 1, flags.target (flagIdx ja ((ebpfs (r + 1)).off.toInt + 1)))
    else if insn.op = 0x10 ∨ insn.op = 0x20 ∨ insn.op = 0x30 ∨ insn.op = 0x40 then
      .ok (cbpfJmp code k 1 0, ate, flags)
    else if insn.op = 0x50 then .ok (cbpfJmp ((code &&& ~~~0x50#16) ||| 0x10#16) k 0 1, ate, flags)
    else if insn.op = 0xb0 then .ok (cbpfJmp ((code &&& ~~~0xb0#16) ||| 0x20#16) k 0 1, ate, flags)
    else if insn.op = 0xa0 then .ok (cbpfJmp ((code &&& ~~~0xa0#16) ||| 0x30#16) k 0 1, ate, flags)
    else .error "!\"Unexpected eBPF JMP pattern\""

def divXTest (ebpfs : Nat → BpfInsn) (r : Nat) : Except String (Nat × Nat) :=
  if (ebpfs (r + 1)).code = 0x55 then .ok (r + 2, 0)
  else if (ebpfs (r + 1)).code ≠ 0xb7 then
    .error "insn.code == (BPF_ALU64 | BPF_MOV | BPF_K)"
  else if (ebpfs (r + 2)).code ≠ 0xa7 then
    .error "insn.code == (BPF_ALU64 | BPF_XOR | BPF_K)"
  else if ¬ ((ebpfs (r + 3)).code = 0x5d ∧ (ebpfs (r + 3)).srcReg = bpfRegAx) then
    .error "insn.code == (BPF_JMP | BPF_JNE | BPF_X) && insn.src_reg == BPF_REG_AX"
  else .ok (r + 4, 2)

def jmpCheckDivX (ebpfs : Nat → BpfInsn) (r ate : Nat) (flags : Flags) : Except String Folded :=
  match divXTest ebpfs r with
  | .error err => .error err
  | .ok (xor, blinded) =>
      if (ebpfs xor).code ≠ 0xac then .error "insn.code == (BPF_ALU | BPF_XOR | BPF_X)"
      else if (ebpfs (xor + 1)).code ≠ 0x95 then .error "insn.code == (BPF_JMP | BPF_EXIT)"
      else .ok (cbpfStmt 0x3c 0, ate + blinded + 4, flags)

def jmpCheckCmpLargeK (ebpfs : Nat → BpfInsn) (r ate : Nat) (flags : Flags) (w : Nat) :
    Except String Folded :=
  if (ebpfs (r + 1)).cls ≠ 0x05 then .error "BPF_CLASS (ebpfp[1].code) == BPF_JMP"
  else jmpNotCheck ebpfs (r + 1) (ebpfs r).imm (ate + 1) (flags.addFold w 1) w

def jmpCheckRetK (ebpfs : Nat → BpfInsn) (r ate : Nat) (flags : Flags) (w : Nat) :
    Except String Folded :=
  if (ebpfs (r + 1)).code = 0x95 ∧ (flags (w + (flags w).fold.toNat + 1)).targeted = false then
    .ok (cbpfStmt 0x06 (ebpfs r).imm, ate + 1, flags)
  else .ok (cbpfStmt 0x00 (ebpfs r).imm, ate, flags)

/-- `sizeof (struct seccomp_data)` loaded by an immediate was `LEN` once. -/
def restoreLen (imm len : BitVec 16) (filter : Filter) : Filter :=
  if filter.code = imm ∧ filter.k = seccompDataLen then cbpfStmt len 0 else filter

def aluPlain (ebpfs : Nat → BpfInsn) (r ate : Nat) (flags : Flags) (w : Nat) :
    Except String Folded :=
  let insn := ebpfs r
  if insn.cls = 0x05 then jmpNotCheck ebpfs r 0 ate flags w
  else if insn.op = 0xb0 then
    if insn.cls = 0x07 ∧ insn.src = 0x08 ∧ (insn.srcReg = bpfRegX ∨ insn.dstReg = bpfRegX) then
      .ok (cbpfStmt (if insn.srcReg = bpfRegA then 0x07 else 0x87) 0, ate, flags)
    else if insn.dstReg = bpfRegA ∧ insn.srcReg = 0 then
      match jmpCheckRetK ebpfs r ate flags w with
      | .ok (filter, ate, flags) => .ok (restoreLen 0x00 0x80 filter, ate, flags)
      | .error err => .error err
    else if insn.dstReg = bpfRegX ∧ insn.srcReg = 0 then
      .ok (restoreLen 0x01 0x81 (cbpfStmt 0x01 insn.imm), ate, flags)
    else if insn.dstReg = bpfRegX ∧ insn.srcReg = bpfRegX then jmpCheckDivX ebpfs r ate flags
    else if insn.dstReg = bpfRegTmp ∧ insn.srcReg = 0 then jmpCheckCmpLargeK ebpfs r ate flags w
    else .error "!\"Unexpected MOV instruction pattern\""
  else .ok (cbpfStmt (insn.code.setWidth 16) insn.imm, ate, flags)

/-- `alu_insn`, which undoes constant blinding in place before it translates. -/
def aluInsn (ebpfs : Nat → BpfInsn) (i : Nat) (flags : Flags) :
    Except String (Folded × (Nat → BpfInsn)) :=
  let insn := ebpfs i
  if insn.op = 0xb0 ∧ insn.dstReg = bpfRegAx then
    let restored := { ebpfs (i + 2) with
      imm := insn.imm ^^^ (ebpfs (i + 1)).imm
      code := (ebpfs (i + 2)).code &&& ~~~0x08#8
      srcReg := 0 }
    let ebpfs := Function.update ebpfs (i + 2) restored
    (aluPlain ebpfs (i + 2) 2 (flags.addFold i 2) i).map (·, ebpfs)
  else if insn.op = 0xa0 ∧ insn.src = 0x08 ∧ insn.srcReg = insn.dstReg then
    -- blinding may turn A = 0 and X = 0 into a xor
    let ebpfs := Function.update ebpfs i { insn with srcReg := 0, code := 0xb4 }
    (aluPlain ebpfs i 0 flags i).map (·, ebpfs)
  else (aluPlain ebpfs i 0 flags i).map (·, ebpfs)

structure Pass where
  ebpfs : Nat → BpfInsn
  flags : Flags
  bitmap : Bitmap
  buf : Nat → Filter

/-- `ASSERT_JMP` failed at instruction `no`, counted from one. -/
structure Rejected where
  no : Nat
  err : String
  deriving DecidableEq, Repr

def slotOf (off : BitVec 16) : Word := BitVec.ofInt 32 (Int.tdiv (-off.toInt - 4) 4)

def Pass.write (pass : Pass) (i : Nat) (folded : Folded) : Pass × Nat :=
  ({ pass with
      flags := folded.2.2
      bitmap := setbits pass.bitmap (i + 1) folded.2.1
      buf := Function.update pass.buf i folded.1 },
    folded.2.1)

def foldInsn (pass : Pass) (i : Nat) : Except String (Pass × Nat) :=
  let insn := pass.ebpfs i
  if insn.cls = 0x01 then
    if insn.srcReg = bpfRegCtx then
      let filter := cbpfStmt 0x20 (BitVec.ofInt 32 insn.off.toInt)
      .ok (pass.write i (filter, 0, pass.flags))
    else if insn.srcReg = bpfRegFp then
      let code := 0x60#16 ||| (if insn.dstReg = bpfRegA then 0x00 else 0x01)
      .ok (pass.write i (cbpfStmt code (slotOf insn.off), 0, pass.flags))
    else .error "insn.src_reg == BPF_REG_FP"
  else if insn.cls = 0x03 then
    let code := if insn.srcReg = bpfRegA then 0x02 else 0x03
    .ok (pass.write i (cbpfStmt code (slotOf insn.off), 0, pass.flags))
  else if insn.cls = 0x04 ∨ insn.cls = 0x07 then
    (aluInsn pass.ebpfs i pass.flags).map fun (folded, ebpfs) =>
      { pass with ebpfs }.write i folded
  else if insn.cls = 0x05 then
    (jmpNotCheck pass.ebpfs i 0 0 pass.flags i).map (pass.write i)
  else .error "!\"Unexpected BPF code class\""

/-- The first pass. Each round moves `i` on, so `ebpfLen` rounds are enough. -/
def firstPass (ebpfLen : Nat) : Nat → Nat → Pass → Except Rejected Pass
  | 0, _, pass => .ok pass
  | rounds + 1, i, pass =>
      if i < ebpfLen then
        match foldInsn pass i with
        | .error err => .error ⟨i + 1, err⟩
        | .ok (pass, ate) => firstPass ebpfLen rounds (i + ate + 1) pass
      else .ok pass

/-- What the second pass changes. `stored` lists the values it wrote into an
8-bit jump field, before the field cut them off. -/
structure Reloc where
  bitmap : Bitmap
  buf : Nat → Filter
  stored : List Nat

def u32 (value : Int) : Nat := (value % 4294967296).toNat

def clearbit (bitmap : Bitmap) (idx : Nat) : Bitmap :=
  Function.update bitmap (idx / u32Bits)
    (bitmap (idx / u32Bits) &&& ~~~(1#32 <<< (idx % u32Bits)))

def distance (pass : Pass) (bitmap : Bitmap) (i : Nat) : Nat :=
  let fold := (pass.flags i).fold.toNat
  let off := (pass.ebpfs (i + fold)).off.toInt
  let patch := countbits bitmap i (u32 (i + fold + 1 + off))
  u32 (off - patch + fold)

/-- The jump of the JA right behind instruction `idx - 1`, which is at `idx`. -/
def jaDistance (pass : Pass) (bitmap : Bitmap) (idx : Nat) : Nat :=
  let off := (pass.ebpfs idx).off.toInt
  let patch := countbits bitmap idx (u32 (idx + off + 1))
  u32 (off - patch + 1)

/-- The K of a plain JA, which is as wide as the distance. -/
def jumpOver (pass : Pass) (bitmap : Bitmap) (i : Nat) : Word :=
  let off := (pass.ebpfs (i + (pass.flags i).fold.toNat)).off.toInt
  let patch := countbits bitmap i (u32 (i + 1 + off))
  BitVec.ofInt 32 (off - patch)

def relocate (pass : Pass) (i : Nat) (reloc : Reloc) : Reloc :=
  let f := reloc.buf i
  if bpfClass f.code ≠ 0x05 then reloc
  else if f.jt ≠ 0 ∧ f.jf ≠ 0 then
    let ja := i + (pass.flags i).fold.toNat + 1
    let jmp := jaDistance pass reloc.bitmap ja
    if 255 < jmp then
      -- this JA does not fit into u8, split it out again
      let bitmap := clearbit reloc.bitmap ja
      let jt := distance pass bitmap i
      let buf := Function.update reloc.buf i { f with jt := BitVec.ofNat 8 jt, jf := 0 }
      ⟨bitmap, Function.update buf ja (cbpfJmp 0x05 (BitVec.ofNat 32 jmp) 0 0), jt :: reloc.stored⟩
    else
      let jt := distance pass reloc.bitmap i
      ⟨reloc.bitmap, Function.update reloc.buf i
        { f with jt := BitVec.ofNat 8 jt, jf := BitVec.ofNat 8 jmp }, jt :: jmp :: reloc.stored⟩
  else if f.jt ≠ 0 ∨ f.jf ≠ 0 then
    let jmp := distance pass reloc.bitmap i
    let moved := if f.jt ≠ 0 then { f with jt := BitVec.ofNat 8 jmp }
      else { f with jf := BitVec.ofNat 8 jmp }
    ⟨reloc.bitmap, Function.update reloc.buf i moved, jmp :: reloc.stored⟩
  else
    { reloc with
      buf := Function.update reloc.buf i { f with k := jumpOver pass reloc.bitmap i } }

/-- A word of the bitmap being walked through, and the bit looked at. -/
structure Cursor where
  mapidx : Nat
  bitmask : BitVec 32
  bitset : BitVec 32

def Cursor.marked (cursor : Cursor) : Bool := cursor.bitset &&& cursor.bitmask != 0

def Cursor.down (cursor : Cursor) (bitmap : Bitmap) : Cursor :=
  let bitmask := cursor.bitmask >>> 1
  if bitmask = 0 then
    ⟨cursor.mapidx - 1, 1#32 <<< (u32Bits - 1), bitmap (cursor.mapidx - 1)⟩
  else { cursor with bitmask }

def Cursor.up (cursor : Cursor) (bitmap : Bitmap) : Cursor :=
  let bitmask := cursor.bitmask <<< 1
  if bitmask = 0 then ⟨cursor.mapidx + 1, 1, bitmap (cursor.mapidx + 1)⟩
  else { cursor with bitmask }

def skip : Nat := 3

def secondPass (pass : Pass) : Nat → Cursor → Reloc → Reloc
  | 0, _, reloc => reloc
  | i + 1, cursor, reloc =>
      if i + 1 > skip - 1 then
        secondPass pass i (cursor.down reloc.bitmap)
          (if cursor.marked then reloc else relocate pass (i + 1) reloc)
      else reloc

/-- The third pass: what is copied down, in order. A filter is read at `rp` and
written at or below it, so the copies never overtake the reads. -/
def thirdPass (reloc : Reloc) : Nat → Nat → Cursor → List Filter
  | 0, _, _ => []
  | left + 1, rp, cursor =>
      let rest := thirdPass reloc left (rp + 1) (cursor.up reloc.bitmap)
      if cursor.marked then rest else reloc.buf rp :: rest

def jumpsInside (ebpfs : Nat → BpfInsn) (ebpfLen i : Nat) : Bool :=
  let insn := ebpfs i
  if (insn.cls = 0x05 ∨ insn.cls = 0x06) ∧ insn.op ≠ 0x90 then
    decide (0 ≤ insn.off.toInt ∧ i + 1 + insn.off.toInt < ebpfLen)
  else true

/-- The filters the passes leave, and every value put into a jump field. -/
structure Recovered where
  filters : List Filter
  stored : List Nat

/-- The prologue check and the first pass; `no` is the instruction the loop
variable still points at when the prologue is looked at. -/
def foldAll (ebpfs : Nat → BpfInsn) (ebpfLen : Nat) (buf : Nat → Filter) (no : Nat) :
    Except Rejected Pass :=
  if ¬ ((ebpfs 0).cls = 0x04 ∧ (ebpfs 0).op = 0xa0) then
    .error ⟨no, "BPF_CLASS (ebpfs[0].code) == BPF_ALU && BPF_OP (ebpfs[0].code) == BPF_XOR"⟩
  else if ¬ ((ebpfs 1).cls = 0x04 ∧ (ebpfs 1).op = 0xa0) then
    .error ⟨no, "BPF_CLASS (ebpfs[1].code) == BPF_ALU && BPF_OP (ebpfs[1].code) == BPF_XOR"⟩
  else if ¬ ((ebpfs 2).cls = 0x07 ∧ (ebpfs 2).op = 0xb0) then
    .error ⟨no, "BPF_CLASS (ebpfs[2].code) == BPF_ALU64 && BPF_OP (ebpfs[2].code) == BPF_MOV"⟩
  else
    let prologue : Bitmap := Function.update (fun _ => 0) 0 7
    firstPass ebpfLen ebpfLen skip ⟨ebpfs, fun _ => ⟨0, false⟩, prologue, buf⟩

def ebpf2cbpf (ebpfs : Nat → BpfInsn) (ebpfLen : Nat) (buf : Nat → Filter) (trustful : Bool) :
    Except Rejected Recovered :=
  match (List.range ebpfLen).find? fun i => !trustful && !jumpsInside ebpfs ebpfLen i with
  | some i => .error ⟨i + 1, "ebpfs[i].off >= 0 && i + 1 + ebpfs[i].off < ebpf_len"⟩
  | none =>
      match foldAll ebpfs ebpfLen buf (if trustful then 1 else ebpfLen + 1) with
      | .error err => .error err
      | .ok pass =>
          let last := ebpfLen - 1
          let cursor : Cursor := ⟨last / u32Bits, 1#32 <<< (last % u32Bits),
            pass.bitmap (last / u32Bits)⟩
          let reloc := secondPass pass last cursor ⟨pass.bitmap, pass.buf, []⟩
          .ok ⟨thirdPass reloc (ebpfLen - skip) skip ⟨0, 8, reloc.bitmap 0⟩, reloc.stored⟩

end Ceccomp
