import Ceccomp.Ebpf.Hardened
import Ceccomp.Ebpf.Rechecked
import Ceccomp.Files.Assemble
import Ceccomp.Files.Disasm
import Ceccomp.Text.Reassembled

/-!
Files that `asm` writes, `disasm` reads and `asm` reads again, and dumps of what the kernel
makes of a program.
-/

namespace Ceccomp

open Bytes (Order)
open Stream (Arrival Delivers)

/-- What `asm` writes for a program in a format that spells bytes. -/
def written (order : Order) (mode : PrintMode) (prog : List Filter) : Text :=
  (prog.flatMap fun f => spelled mode (f.bytes order)) ++ if mode = .hexline then ['\n'] else []

theorem assembled_checked {lib : Libseccomp} {scmpArch : Word}
    (program : TextProgram lib scmpArch) :
    ∃ prog, assembled program.code = some prog ∧ prog ≠ [] ∧ prog.length ≤ bpfMaxInsns ∧
      MergedClean prog := by
  obtain ⟨insns, all⟩ := program_assembles program
  obtain ⟨some_, few⟩ := program_few program
  have length : (insns.map Insn.filter).length = (codePtrs program.parsed.text).length := by
    rw [List.length_map, all.length]
  refine ⟨insns.map Insn.filter, all.assembled, ?_, ?_, all.clean⟩
  · rw [← List.length_pos_iff, length]
    exact some_
  · rw [length]
    exact few

theorem char_bytes (bytes : List Byte) : (bytes.map Byte.char).map charByte = bytes := by
  rw [List.map_map]
  exact (List.map_congr_left fun byte _ => char_byte byte).trans (List.map_id bytes)

theorem written_raw (order : Order) (prog : List Filter) :
    (written order .raw prog).map charByte = prog.flatMap (Filter.bytes order) := by
  have chars : written order .raw prog = (prog.flatMap (Filter.bytes order)).map Byte.char := by
    rw [written, if_neg (by decide), List.append_nil, List.map_flatMap]
    rfl
  rw [chars, char_bytes]

/-- From text to a raw file, by way of a pipe to text again, and from there to any file: every
filter comes back, but for the data of a `return` whose action has none. -/
theorem files_survive {lib : Libseccomp} (knows : lib.KnowsArchs)
    (short : lib.ShortNames) {scmpArch : Word} (program : TextProgram lib scmpArch)
    (kept : ∀ prog, assembled program.code = some prog → NamesKept lib scmpArch prog)
    (host host' host'' : Order) :
    ∃ prog out text, assembled program.code = some prog ∧
      assemble host lib scmpArch .raw program.file = .ok (some out) ∧
      (∀ source, Delivers source (out.map charByte) →
        disasm host' lib source scmpArch false = .ok ([], some text)) ∧
      ∀ mode, mode ≠ .cMacro →
        assemble host'' lib scmpArch mode program.file =
          .ok (some (written (byteOrder scmpArch) mode prog)) ∧
        assemble host'' lib scmpArch mode text =
          .ok (some (written (byteOrder scmpArch) mode (prog.map Filter.shown))) := by
  obtain ⟨prog, done, nonempty, few, merges⟩ := assembled_checked program
  obtain ⟨text, parsed, printed, again⟩ := accepted_reads_again lib knows short scmpArch
    prog nonempty few (merged_clean_check prog nonempty merges) (kept prog done) 0
  have raw := assemble_spelled host program .raw (by decide) prog done
  refine ⟨prog, _, text, done, raw, ?_, ?_⟩
  · intro source delivers
    have bytes := written_raw (byteOrder scmpArch) prog
    rw [written] at bytes
    rw [bytes] at delivers
    have length : (prog.flatMap (Filter.bytes (byteOrder scmpArch))).length = 8 * prog.length :=
      Bytes.flat_map_length _ 8 (filter_bytes_length _) prog
    rw [disasm_classic host' lib scmpArch delivers, disasmBytes, length]
    simp only [Bool.false_eq_true, if_false]
    rw [if_neg (by omega), filters_in_array, printFilters, if_neg nonempty, printed,
      Nat.mul_mod_right]
    rfl
  · intro mode binary
    obtain ⟨lines, read, parses⟩ := again.read
    obtain ⟨resolved, resolves⟩ := again.resolves.mpr merges
    let second : TextProgram lib scmpArch :=
      { file := text, lines, parsed, code := resolved, read, parses, resolves }
    exact ⟨assemble_spelled host'' program mode binary prog done,
      assemble_spelled host'' second mode binary _ (again.assembles resolved resolves)⟩

/-- A source that allows everything. -/
def allowAll : TextProgram readAndSysctl archX8664 :=
  (readProgram readAndSysctl archX8664 "return ALLOW\n".toList).get (by decide +kernel)

theorem allow_all_kept (prog : List Filter) (done : assembled allowAll.code = some prog) :
    NamesKept readAndSysctl archX8664 prog := by
  have only : assembled allowAll.code = some [⟨0x06, 0, 0, 0x7fff0000⟩] := by decide +kernel
  rw [only] at done
  cases done
  intro pc op src jt jf here
  match pc, here with
  | 0, here => cases here
  | more + 1, here => cases here

theorem files_survive_allow_all : ∃ out text,
    assemble .little readAndSysctl archX8664 .raw allowAll.file = .ok (some out) ∧
      ∀ source, Delivers source (out.map charByte) →
        disasm .big readAndSysctl source archX8664 false = .ok ([], some text) := by
  obtain ⟨_, out, text, _, raw, reads, _⟩ := files_survive read_and_sysctl_knows read_and_sysctl_short allowAll allow_all_kept .little .big .little
  exact ⟨out, text, raw, reads⟩

section Dumps

theorem disasm_of_insns (host : Order) (lib : Libseccomp) (scmpArch : Word)
    (insns : List BpfInsn) (few : insns.length ≤ 0x8000) (some_ : insns ≠ [])
    (source : List (Arrival Byte))
    (delivers : Delivers source (insns.flatMap (BpfInsn.bytes (byteOrder scmpArch))))
    (recovered : Recovered) (short : recovered.filters.length < 2 ^ 16)
    (returned : ebpf2cbpf (fun i => insns.getD i default) insns.length (fun _ => cbpfStmt 0 0) false =
      .ok recovered) :
    disasm host lib source scmpArch true = printFilters lib scmpArch [] recovered.filters := by
  have length : (insns.flatMap (BpfInsn.bytes (byteOrder scmpArch))).length = 8 * insns.length :=
    Bytes.flat_map_length _ 8 (insn_bytes_length _) insns
  have fits : ¬ 2 ^ 32 - Disasm.blkSize ≤ 8 * insns.length := by
    simp only [Disasm.blkSize]
    omega
  rw [disasm_migrated host lib scmpArch delivers, disasmBytes, length, Nat.mul_mod_right]
  simp only [insns_in_array, if_true, if_neg fits, if_neg some_, returned]
  rw [Nat.mod_eq_of_lt short, List.take_length]
  rfl

/-- Dumps of a program the kernel has migrated, one of them hardened: whatever machine reads
them, and in whatever pieces, the same text is printed, and it is that of filters which
`check_prog` accepts and which decide as the program. -/
theorem dumps_print_alike (prog : List Filter) (nonempty : prog ≠ [])
    (few : prog.length ≤ bpfMaxInsns) (clean : CheckClean prog) (choice : Nat → Blinding)
    (permits : ∀ i, i < (bpfConvertFilter prog).length →
      ((bpfConvertFilter prog).getD i default).Permits (choice i))
    (lib : Libseccomp) (short : lib.ShortNames) (scmpArch : Word) (host host' : Order)
    (plain hardened : List (Arrival Byte))
    (delivers : Delivers plain
      ((bpfConvertFilter prog).flatMap (BpfInsn.bytes (byteOrder scmpArch))))
    (delivers' : Delivers hardened
      ((bpfJitBlindConstants choice (fun i => (bpfConvertFilter prog).getD i default)
        (bpfConvertFilter prog).length).flatMap (BpfInsn.bytes (byteOrder scmpArch)))) :
    ∃ filters text, disasm host lib plain scmpArch true = .ok ([], some text) ∧
      disasm host' lib hardened scmpArch true = .ok ([], some text) ∧
      printProg lib scmpArch filters 0 false = .ok (some text) ∧
      filters.length ≤ prog.length ∧ CheckClean filters ∧
      ∀ stale data, ∃ value, bpfRun stale filters data = some value ∧
        bpfRun stale prog data = some value := by
  obtain ⟨passes, ends⟩ := check_clean_passes prog nonempty clean
  have accepted : Accepted prog := ⟨passes, ends, few⟩
  have migrated := migrated_list prog
  obtain ⟨recovered, bitmap, returned, _, from_⟩ :=
    ebpf2cbpf_recovers accepted nonempty migrated (fun _ => cbpfStmt 0 0) false
  have length := convert_length prog
  have blinds := blinds_list choice (fun i => (bpfConvertFilter prog).getD i default)
    (bpfConvertFilter prog).length permits
  rw [length] at blinds
  have fits := blinded_fits accepted migrated blinds.permits
  have again := ebpf2cbpf_unblinds (migrated_tidy accepted migrated nonempty) blinds fits
    (fun _ => cbpfStmt 0 0) (fun _ => cbpfStmt 0 0) false (length ▸ returned)
  rw [← blind_constants_length, ← length] at again
  have groups := addr_le prog prog.length
  have some_ : bpfConvertFilter prog ≠ [] := by
    rw [← List.length_pos_iff, length]
    exact Nat.lt_of_lt_of_le (by decide : 0 < skip) (skip_le_addr prog prog.length)
  have more : bpfJitBlindConstants choice (fun i => (bpfConvertFilter prog).getD i default)
      (bpfConvertFilter prog).length ≠ [] := by
    rw [← List.length_pos_iff, blind_constants_length]
    exact blind_addr_lt choice (List.length_pos_iff.mpr some_)
  -- what was recovered is printed as any accepted program
  obtain ⟨filled, shorter, accepts⟩ := recovered_accepted accepted from_ nonempty
  have small : recovered.filters.length < 2 ^ 16 :=
    Nat.lt_of_le_of_lt shorter (Nat.lt_of_le_of_lt few (by decide))
  obtain ⟨text, printed⟩ := accepted_prints lib short scmpArch recovered.filters
    ⟨filled, accepts, small⟩ 0
  have shown : printFilters lib scmpArch [] recovered.filters = .ok ([], some text) := by
    rw [printFilters, if_neg filled, printed]
  refine ⟨recovered.filters, text, ?_, ?_, printed, shorter, accepts,
    recovered_decides nonempty clean accepted from_⟩
  · rw [← shown]
    apply disasm_of_insns host lib scmpArch _ _ some_ plain delivers recovered small returned
    rw [length]
    simp only [bpfMaxInsns, skip] at few groups
    omega
  · rw [← shown]
    apply disasm_of_insns host' lib scmpArch _ _ more hardened delivers' recovered small again
    rw [blind_constants_length, length]
    exact fits

theorem dumps_print_alike_allow_one : ∃ filters text,
    disasm .little readAndSysctl [.data ((bpfConvertFilter allowOne).flatMap
      (BpfInsn.bytes .little))] archX8664 true = .ok ([], some text) ∧
    printProg readAndSysctl archX8664 filters 0 false = .ok (some text) ∧
    ∀ stale data, ∃ value, bpfRun stale filters data = some value ∧
      bpfRun stale allowOne data = some value := by
  obtain ⟨filters, text, plain, _, printed, _, _, decides⟩ := dumps_print_alike allowOne (by decide)
    (by decide) ⟨by decide, by decide⟩ allowOneChoice (by decide) readAndSysctl
    read_and_sysctl_short archX8664 .little .big _ _ (Stream.delivers_whole _ (by decide))
    (Stream.delivers_whole _ (by decide))
  exact ⟨filters, text, plain, printed, decides⟩

end Dumps

end Ceccomp
