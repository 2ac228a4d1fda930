import Ceccomp.Lib.Stream
import Ceccomp.Files.Layout
import Ceccomp.Disasm.PrintProg
import Ceccomp.Text.Program

/-!
`disasm.c`: filters or migrated eBPF are read from a descriptor, brought into the byte order
of the host and printed. What the input is cut into on its way makes no difference.
-/

namespace Ceccomp

open Bytes (Order)
open Stream (Arrival Delivers)

inductive DisasmMessage where
  | readFail (errno : Nat)
  | tooLargeInput
  | inputHasLeftover (count : Nat)
  | noFilter
  -- `M_EBPF_INPUT_ERROR`, then `M_DISASM_TERMINATED`
  | ebpfInputError (rejected : Rejected)
  | check (message : Message)

abbrev Warned (Result : Type) := Except DisasmMessage (List DisasmMessage × Result)

def leftoverWarning (leftover : Nat) : List DisasmMessage :=
  if leftover ≠ 0 then [.inputHasLeftover leftover] else []

namespace Disasm

def readFilters (host : Order) (source : List (Arrival Byte)) : Warned (List Filter) :=
  let todo := 8 * (bpfMaxInsns + 1)
  match Stream.fill todo source with
  | .error errno => .error (.readFail errno)
  | .ok bytes =>
      -- the buffer is one filter longer than a program may be
      if bytes.length = todo then .error .tooLargeInput
      else
        .ok (leftoverWarning (bytes.length % 8),
          (Bytes.items 8 (bytes.length / 8) bytes).map (Filter.ofBytes host))

def blkSize : Nat := 0x2000

/-- `read_insns`: the instructions, and the size of the mapping they are in. What is left of
an unfinished instruction is cleared, so zeros follow. The size has 32 bits, and `mremap`
refuses the 0 that `map_size + BLK_SIZE` wraps to: `none` is the `NULL` that is returned then. -/
def readInsns (host : Order) (source : List (Arrival Byte)) : Warned (Option (List BpfInsn × Nat)) :=
  match Stream.grow blkSize (2 ^ 32) blkSize blkSize source with
  | .error errno => .error (.readFail errno)
  | .ok none => .ok ([], none)
  | .ok (some (bytes, mapSize)) =>
      let leftover := bytes.length % 8
      let offset := bytes.length - leftover
      -- 0xFFFFE000 at most, so that this one does not wrap
      let mapSize := if mapSize - offset < 0x50 then mapSize + 0x1000 else mapSize
      .ok (leftoverWarning leftover,
        some ((Bytes.items 8 (offset / 8) bytes).map (BpfInsn.ofBytes host), mapSize))

end Disasm

/-- The end of `disasm`: `print_prog` unless there is nothing to print. -/
def printFilters (lib : Libseccomp) (scmpArch : Word) (warnings : List DisasmMessage)
    (prog : List Filter) : Warned (Option Text) :=
  if prog = [] then .ok (warnings ++ [.noFilter], some [])
  else
    match printProg lib scmpArch prog 0 false with
    | .error message => .error (.check message)
    | .ok text => .ok (warnings, text)

/-- `disasm`: the warnings and the text, `none` where an assertion fails. -/
def disasm (host : Order) (lib : Libseccomp) (source : List (Arrival Byte)) (scmpArch : Word)
    (ebpf : Bool) : Warned (Option Text) :=
  let reverse := needReverseEndian host scmpArch
  if ebpf then
    match Disasm.readInsns host source with
    | .error message => .error message
    -- `assert (insns)`
    | .ok (warnings, none) => .ok (warnings, none)
    | .ok (warnings, some (insns, _)) =>
        if insns = [] then .ok (warnings ++ [.noFilter], some [])
        else
          let insns := if reverse then insns.map reverseEbpfEndian else insns
          match ebpf2cbpf (fun i => insns.getD i default) insns.length (fun _ => cbpfStmt 0 0)
            false with
          | .error rejected => .error (.ebpfInputError rejected)
          -- `prog.len` is an `unsigned short`
          | .ok recovered =>
              printFilters lib scmpArch warnings
                (recovered.filters.take (recovered.filters.length % 2 ^ 16))
  else
    match Disasm.readFilters host source with
    | .error message => .error message
    | .ok (warnings, filters) =>
        printFilters lib scmpArch warnings (if reverse then filters.map reverseEndian else filters)

section Read

variable (host : Order) (scmpArch : Word)

/-- Eight bytes of a file, brought into the byte order of the host, are read as on the
target. -/
theorem file_filter (bytes : List Byte) (eight : bytes.length = 8) :
    (if needReverseEndian host scmpArch then reverseEndian (Filter.ofBytes host bytes)
      else Filter.ofBytes host bytes) = Filter.ofBytes (byteOrder scmpArch) bytes := by
  by_cases reverse : needReverseEndian host scmpArch = true
  · have turned : (reverseEndian (Filter.ofBytes host bytes)).bytes (byteOrder scmpArch) =
        bytes := by
      rw [reverse_endian_bytes, (need_reverse_iff host scmpArch).mp reverse, swapped_swapped,
        bytes_of_filter host bytes eight]
    rw [if_pos reverse, ← filter_of_bytes (byteOrder scmpArch) (reverseEndian _), turned]
  · rw [if_neg reverse, same_order host scmpArch reverse]

theorem file_insn (bytes : List Byte) (eight : bytes.length = 8) :
    (if needReverseEndian host scmpArch then reverseEbpfEndian (BpfInsn.ofBytes host bytes)
      else BpfInsn.ofBytes host bytes) = BpfInsn.ofBytes (byteOrder scmpArch) bytes := by
  by_cases reverse : needReverseEndian host scmpArch = true
  · have turned : (reverseEbpfEndian (BpfInsn.ofBytes host bytes)).bytes (byteOrder scmpArch) =
        bytes := by
      rw [reverse_ebpf_endian_bytes, (need_reverse_iff host scmpArch).mp reverse, swapped_swapped,
        bytes_of_insn host bytes eight]
    rw [if_pos reverse, ← insn_of_bytes (byteOrder scmpArch) (reverseEbpfEndian _), turned]
  · rw [if_neg reverse, same_order host scmpArch reverse]

theorem map_if {Target : Type} (choice : Bool) (f : Target → Target) (g h : List Byte → Target)
    (items : List (List Byte))
    (each : ∀ item ∈ items, (if choice then f (g item) else g item) = h item) :
    (if choice then (items.map g).map f else items.map g) = items.map h := by
  cases choice with
  | false => exact List.map_congr_left each
  | true =>
      rw [if_pos rfl, List.map_map]
      exact List.map_congr_left each

end Read

def filtersIn (order : Order) (bytes : List Byte) : List Filter :=
  (Bytes.items 8 (bytes.length / 8) bytes).map (Filter.ofBytes order)

def insnsIn (order : Order) (bytes : List Byte) : List BpfInsn :=
  (Bytes.items 8 (bytes.length / 8) bytes).map (BpfInsn.ofBytes order)

theorem filters_in_array (order : Order) (prog : List Filter) :
    filtersIn order (prog.flatMap (Filter.bytes order)) = prog := by
  have count : (prog.flatMap (Filter.bytes order)).length / 8 = prog.length := by
    rw [Bytes.flat_map_length _ 8 (filter_bytes_length order), Nat.mul_div_cancel_left _ (by decide)]
  have apart := Bytes.items_append _ 8 (filter_bytes_length order) prog []
  rw [List.append_nil] at apart
  rw [filtersIn, count, apart, List.map_map]
  exact (List.map_congr_left fun f _ => filter_of_bytes order f).trans (List.map_id prog)

theorem insns_in_array (order : Order) (insns : List BpfInsn) :
    insnsIn order (insns.flatMap (BpfInsn.bytes order)) = insns := by
  have count : (insns.flatMap (BpfInsn.bytes order)).length / 8 = insns.length := by
    rw [Bytes.flat_map_length _ 8 (insn_bytes_length order), Nat.mul_div_cancel_left _ (by decide)]
  have apart := Bytes.items_append _ 8 (insn_bytes_length order) insns []
  rw [List.append_nil] at apart
  rw [insnsIn, count, apart, List.map_map]
  exact (List.map_congr_left fun insn _ => insn_of_bytes order insn).trans (List.map_id insns)

/-- What `disasm` does with all of its input. -/
def disasmBytes (lib : Libseccomp) (bytes : List Byte) (scmpArch : Word) (ebpf : Bool) :
    Warned (Option Text) :=
  let warnings := leftoverWarning (bytes.length % 8)
  if ebpf then
    let insns := insnsIn (byteOrder scmpArch) bytes
    if 2 ^ 32 - Disasm.blkSize ≤ bytes.length then .ok ([], none)
    else if insns = [] then .ok (warnings ++ [.noFilter], some [])
    else
      match ebpf2cbpf (fun i => insns.getD i default) insns.length (fun _ => cbpfStmt 0 0) false with
      | .error rejected => .error (.ebpfInputError rejected)
      | .ok recovered =>
          printFilters lib scmpArch warnings
            (recovered.filters.take (recovered.filters.length % 2 ^ 16))
  else if 8 * (bpfMaxInsns + 1) ≤ bytes.length then .error .tooLargeInput
  else printFilters lib scmpArch warnings (filtersIn (byteOrder scmpArch) bytes)

section Delivered

variable (host : Order) (lib : Libseccomp) {source : List (Arrival Byte)} (scmpArch : Word)
variable {bytes : List Byte} (delivers : Delivers source bytes)

include delivers

theorem disasm_classic :
    disasm host lib source scmpArch false = disasmBytes lib bytes scmpArch false := by
  have buffered := Stream.fill_delivers (8 * (bpfMaxInsns + 1)) source bytes delivers
  simp only [disasm, disasmBytes, Disasm.readFilters, buffered, Bool.false_eq_true, if_false]
  by_cases large : 8 * (bpfMaxInsns + 1) ≤ bytes.length
  · rw [if_pos (List.length_take_of_le large), if_pos large]
  · rw [List.take_of_length_le (Nat.le_of_not_le large), if_neg (by omega), if_neg large]
    dsimp only
    rw [map_if _ _ _ (Filter.ofBytes (byteOrder scmpArch)) _ fun item member =>
      file_filter host scmpArch item
        (Bytes.items_length 8 _ bytes (Nat.mul_div_le _ _) item member), filtersIn]

theorem disasm_migrated :
    disasm host lib source scmpArch true = disasmBytes lib bytes scmpArch true := by
  have offset : (bytes.length - bytes.length % 8) / 8 = bytes.length / 8 := by omega
  have none_ : (Bytes.items 8 (bytes.length / 8) bytes).map (BpfInsn.ofBytes host) = [] ↔
      insnsIn (byteOrder scmpArch) bytes = [] := by
    rw [insnsIn, List.map_eq_nil_iff, List.map_eq_nil_iff]
  have same : (if needReverseEndian host scmpArch then
        ((Bytes.items 8 (bytes.length / 8) bytes).map (BpfInsn.ofBytes host)).map reverseEbpfEndian
      else (Bytes.items 8 (bytes.length / 8) bytes).map (BpfInsn.ofBytes host)) =
        insnsIn (byteOrder scmpArch) bytes :=
    map_if _ _ _ (BpfInsn.ofBytes (byteOrder scmpArch)) _ fun item member =>
      file_insn host scmpArch item
        (Bytes.items_length 8 _ bytes (Nat.mul_div_le _ _) item member)
  have grown := Stream.grow_delivers Disasm.blkSize (2 ^ 32) (by decide) ⟨2 ^ 19, rfl⟩
    Disasm.blkSize Disasm.blkSize (by decide) (Nat.le_refl _) (Nat.dvd_refl _) (by decide) source
    bytes delivers
  rw [Nat.sub_self, Nat.zero_add] at grown
  rcases grown with ⟨few, size, buffered, _⟩ | ⟨many, buffered⟩
  · simp only [disasm, disasmBytes, Disasm.readInsns, buffered, offset, if_true, none_, same,
      if_neg (Nat.not_le.mpr few)]
  · simp only [disasm, disasmBytes, Disasm.readInsns, buffered, if_true, if_pos many]

/-- The output follows from the input and the target alone: not from the pieces in which the
input arrives, nor from the machine that reads it. -/
theorem disasm_of_bytes (ebpf : Bool) :
    disasm host lib source scmpArch ebpf = disasmBytes lib bytes scmpArch ebpf := by
  cases ebpf with
  | false => exact disasm_classic host lib scmpArch delivers
  | true => exact disasm_migrated host lib scmpArch delivers

end Delivered

theorem disasm_of_bytes_cut :
    disasm .big namelessLib [.data [0x06, 0x00, 0x00], .data [0x00, 0x00, 0x00, 0xff, 0x7f, 0x06]]
        archX8664 false =
      disasmBytes namelessLib [0x06, 0x00, 0x00, 0x00, 0x00, 0x00, 0xff, 0x7f, 0x06] archX8664 false :=
  disasm_of_bytes .big namelessLib archX8664
    (.piece 0x06 [0x00, 0x00] _ _ (.piece 0x00 [0x00, 0x00, 0xff, 0x7f, 0x06] _ _ .done)) false

end Ceccomp
