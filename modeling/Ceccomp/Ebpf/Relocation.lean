import Ceccomp.Ebpf.Hardened

/-!
Where relocated jumps land. An index kept after the second pass is found in the
output at the number of kept indices before it; a jump's field is what lies
between the place behind it and the place of its eBPF target, which is kept.
-/

namespace Ceccomp

open Compact (span)
open Spread (Spreads)

/-- From `i`, an offset of `offset` filters leads to the kept instruction `t`. -/
structure Reaches (bitmap : Bitmap) (i offset t : Nat) : Prop where
  kept : bitmap.has t = false
  place : span bitmap.has skip i + 1 + offset = span bitmap.has skip t

section Groups

variable {prog : List Filter} (accepted : Accepted prog) {ebpfs : Nat → BpfInsn} {pass : Pass}
variable (state : AtGroup prog ebpfs prog.length pass) {reloc : Reloc}
variable (done : RelocatedFrom prog pass 0 reloc) (migrated : Migrated prog ebpfs)

include accepted done

section Conds

variable {d : Nat} {op : JmpOp} {src : Src} {jt jf : BitVec 8}
variable (here : insnAt prog d = some (.jmp op src jt jf))

variable (uneaten : eaten prog d = false)

include here uneaten

include state migrated

end Conds

end Groups

section Blinded

variable {choice : Nat → Blinding} {ebpfs code : Nat → BpfInsn} {len : Nat}
variable (tidy : Tidy ebpfs len) (blinds : Blinds choice ebpfs len code)
variable (fits : blindAddr choice len ≤ 0x8000)

include tidy blinds fits

variable {pass pass' : Pass} (state : PassAlike choice ebpfs code len len pass pass')
variable {reloc reloc' : Reloc} (alike : RelocAlike choice len reloc reloc')

include state alike

end Blinded

end Ceccomp
