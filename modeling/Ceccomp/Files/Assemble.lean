import Ceccomp.Files.Layout
import Ceccomp.Text.CMacro
import Ceccomp.Text.Program

/-!
`assemble` of `asm.c`: a source is read, parsed and resolved, and every statement is written
in one of four formats. Three of them spell the bytes of the filter; standard output is a
text whose characters are bytes.
-/

namespace Ceccomp

open Bytes (Order)

inductive PrintMode where
  | hexline | hexfmt | raw | cMacro
  deriving DecidableEq, Repr

def Byte.char (byte : Byte) : Char := Char.ofNat byte.toNat

def charByte (c : Char) : Byte := BitVec.ofNat 8 c.toNat

theorem char_byte (byte : Byte) : charByte byte.char = byte := by
  have small : byte.toNat < 256 := byte.isLt
  have valid : byte.toNat.isValidChar := Or.inl (by omega)
  have same : (Char.ofNat byte.toNat).toNat = byte.toNat := by
    rw [Char.ofNat, dif_pos valid]
    rfl
  rw [charByte, Byte.char, same, BitVec.ofNat_toNat, BitVec.setWidth_eq]

namespace Asm

def hexCode : Text := "0123456789abcdef".toList

def hexify (ch : Byte) : Text :=
  [hexCode.getD (ch >>> 4).toNat '0', hexCode.getD (ch &&& 0xf).toNat '0']

def hexfmtTemplate : Text :=
  "\"\\x00\\x00\\x00\\x00\\x00\\x00\\x00\\x00\",\n".toList

def hexlineTemplate : Text := "\\x00\\x00\\x00\\x00\\x00\\x00\\x00\\x00".toList

/-- The loop over the bytes of a filter: two digits from `start` on, then every fourth. -/
def fillTemplate (start : Nat) : List Byte → Text → Text
  | [], template => template
  | byte :: bytes, template =>
      let digits := hexify byte
      fillTemplate (start + 4) bytes
        ((template.set start (digits.getD 0 '0')).set (start + 1) (digits.getD 1 '0'))

/-- `hexfmt_handle`, which writes into the template it was given: what goes to standard
output, and the template for the next call. -/
def hexfmtHandle (host : Order) (f : Filter) (template : Text) : Text × Text :=
  let template := fillTemplate 3 (f.bytes host) template
  (template.take hexfmtTemplate.length, template)

def hexlineHandle (host : Order) (f : Filter) (template : Text) : Text × Text :=
  let template := fillTemplate 2 (f.bytes host) template
  (template.take hexlineTemplate.length, template)

def rawHandle (host : Order) (f : Filter) (template : Text) : Text × Text :=
  ((f.bytes host).map Byte.char, template)

def template : PrintMode → Text
  | .hexfmt => hexfmtTemplate
  | .hexline => hexlineTemplate
  | .raw | .cMacro => []

def handle (host : Order) : PrintMode → Filter → Statement → Text → Option (Text × Text)
  | .hexfmt, f, _, template => some (hexfmtHandle host f template)
  | .hexline, f, _, template => some (hexlineHandle host f template)
  | .raw, f, _, template => some (rawHandle host f template)
  | .cMacro, f, statement, template =>
      (cMacroHandle f statement).map fun line => (line.text, template)

def writeCode (host : Order) (mode : PrintMode) (reverse : Bool) :
    List Statement → Text → Option Text
  | [], _ => some []
  | statement :: code, template =>
      (asmStatement statement).bind fun f =>
        let f := if reverse then reverseEndian f else f
        (handle host mode f statement template).bind fun both =>
          (writeCode host mode reverse code both.2).map fun later => both.1 ++ later

end Asm

/-- `assemble`: standard output, `none` where an assertion fails, or the message the program
ends with. -/
def assemble (host : Order) (lib : Libseccomp) (scmpArch : Word) (printMode : PrintMode)
    (file : Text) : Except Message (Option Text) :=
  match sourceLines file with
  | .error message => .error message
  | .ok lines =>
      match parser lib scmpArch lines with
      | none => .ok none
      | some (.error message) => .error message
      | some (.ok parsed) =>
          match resolver parsed.table (codePtrs parsed.text) with
          | .error message => .error message
          | .ok (code, reports) =>
              if reports ≠ [] then .error .asmTerminated
              else
                let reverse := needReverseEndian host scmpArch && printMode != .cMacro
                .ok ((Asm.writeCode host printMode reverse code (Asm.template printMode)).map
                  fun text => text ++ if printMode = .hexline then ['\n'] else [])

def escape (byte : Byte) : Text := '\\' :: 'x' :: Asm.hexify byte

def spelled : PrintMode → List Byte → Text
  | .hexfmt, bytes => '"' :: bytes.flatMap escape ++ ['"', ',', '\n']
  | .hexline, bytes => bytes.flatMap escape
  | .raw, bytes => bytes.map Byte.char
  | .cMacro, _ => []

def TemplateFor (mode : PrintMode) (template : Text) : Prop :=
  mode = .raw ∨ ∃ old : List Byte, old.length = 8 ∧ template = spelled mode old

theorem hexify_two (byte : Byte) : ∃ high low, Asm.hexify byte = [high, low] := ⟨_, _, rfl⟩

theorem fill_template_escaped (bytes : List Byte) :
    ∀ (before behind : Text) (old : List Byte), old.length = bytes.length →
      Asm.fillTemplate (before.length + 2) bytes (before ++ old.flatMap escape ++ behind) =
        before ++ bytes.flatMap escape ++ behind := by
  induction bytes with
  | nil =>
      intro before behind old same
      rw [List.length_eq_zero_iff.mp same]
      rfl
  | cons byte bytes ih =>
      intro before behind old same
      cases old with
      | nil => cases same
      | cons former old =>
          obtain ⟨high, low, digits⟩ := hexify_two byte
          obtain ⟨high', low', digits'⟩ := hexify_two former
          have later := ih (before ++ escape byte) behind old (Nat.succ.inj same)
          have width : (before ++ escape byte).length = before.length + 4 := by
            simp [escape, digits]
          rw [width, Nat.add_right_comm] at later
          have step : ((before ++ (former :: old).flatMap escape ++ behind).set
              (before.length + 2) high).set (before.length + 2 + 1) low =
                before ++ escape byte ++ old.flatMap escape ++ behind := by
            have inside : ¬ before.length + 2 + 1 < before.length := by omega
            have third : before.length + 2 + 1 - before.length = 3 := by omega
            simp [escape, digits, digits', List.set_append, inside, third]
          rw [Asm.fillTemplate, digits]
          simp only [List.getD_cons_zero, List.getD_cons_succ]
          rw [step, later, List.flatMap_cons, List.append_assoc before]

theorem escaped_length (bytes : List Byte) : (bytes.flatMap escape).length = 4 * bytes.length :=
  Bytes.flat_map_length escape 4 (fun _ => rfl) bytes

theorem template_for (mode : PrintMode) (binary : mode ≠ .cMacro) :
    TemplateFor mode (Asm.template mode) := by
  cases mode with
  | cMacro => exact absurd rfl binary
  | raw => exact Or.inl rfl
  | hexline => exact Or.inr ⟨List.replicate 8 0, rfl, by decide⟩
  | hexfmt => exact Or.inr ⟨List.replicate 8 0, rfl, by decide⟩

theorem handle_spelled (host : Order) (mode : PrintMode) (binary : mode ≠ .cMacro) (f : Filter)
    (statement : Statement) (template : Text) (used : TemplateFor mode template) :
    ∃ template', Asm.handle host mode f statement template =
        some (spelled mode (f.bytes host), template') ∧ TemplateFor mode template' := by
  have eight : (f.bytes host).length = 8 := filter_bytes_length host f
  cases mode with
  | cMacro => exact absurd rfl binary
  | raw => exact ⟨template, rfl, used⟩
  | hexline =>
      rcases used with other | ⟨old, same, rfl⟩
      · cases other
      · refine ⟨spelled .hexline (f.bytes host), ?_, Or.inr ⟨_, eight, rfl⟩⟩
        have filled := fill_template_escaped (f.bytes host) [] [] old (same.trans eight.symm)
        rw [List.nil_append, List.append_nil, List.nil_append, List.append_nil] at filled
        have whole : ((f.bytes host).flatMap escape).take Asm.hexlineTemplate.length =
            (f.bytes host).flatMap escape :=
          List.take_of_length_le (by rw [escaped_length, eight]; decide)
        simp only [Asm.handle, Asm.hexlineHandle, spelled]
        rw [show 2 = ([] : Text).length + 2 from rfl, filled, whole]
  | hexfmt =>
      rcases used with other | ⟨old, same, rfl⟩
      · cases other
      · refine ⟨spelled .hexfmt (f.bytes host), ?_, Or.inr ⟨_, eight, rfl⟩⟩
        have filled := fill_template_escaped (f.bytes host) ['"'] ['"', ',', '\n'] old
          (same.trans eight.symm)
        have whole : (spelled .hexfmt (f.bytes host)).take Asm.hexfmtTemplate.length =
            spelled .hexfmt (f.bytes host) := by
          apply List.take_of_length_le
          rw [spelled, List.length_append, List.length_cons, escaped_length, eight]
          decide
        simp only [Asm.handle, Asm.hexfmtHandle]
        have start : Asm.fillTemplate 3 (f.bytes host) (spelled .hexfmt old) =
            spelled .hexfmt (f.bytes host) := filled
        rw [start, whole]

theorem assembled_cons (statement : Statement) (code : List Statement) (prog : List Filter)
    (all : assembled (statement :: code) = some prog) :
    ∃ f later, asmStatement statement = some f ∧ assembled code = some later ∧
      f :: later = prog := by
  rw [assembled] at all
  split at all
  · next f later first rest => exact ⟨f, later, first, rest, Option.some.inj all⟩
  · cases all

theorem write_code_spelled (host : Order) (scmpArch : Word) (mode : PrintMode)
    (binary : mode ≠ .cMacro) (code : List Statement) :
    ∀ (prog : List Filter) (template : Text), assembled code = some prog →
      TemplateFor mode template →
      Asm.writeCode host mode (needReverseEndian host scmpArch && mode != .cMacro) code template =
        some (prog.flatMap fun f => spelled mode (f.bytes (byteOrder scmpArch))) := by
  have turned : (needReverseEndian host scmpArch && mode != .cMacro) =
      needReverseEndian host scmpArch := by
    cases mode <;> simp at binary ⊢
  rw [turned]
  induction code with
  | nil =>
      intro prog template all used
      cases all
      rfl
  | cons statement code ih =>
      intro prog template all used
      obtain ⟨f, later, first, rest, rfl⟩ := assembled_cons statement code prog all
      have bytes : (if needReverseEndian host scmpArch then reverseEndian f else f).bytes host =
          f.bytes (byteOrder scmpArch) := by
        by_cases reverse : needReverseEndian host scmpArch = true
        · rw [if_pos reverse, reverse_endian_bytes, (need_reverse_iff host scmpArch).mp reverse]
        · rw [if_neg reverse, same_order host scmpArch reverse]
      obtain ⟨template', written, used'⟩ := handle_spelled host mode binary
        (if needReverseEndian host scmpArch then reverseEndian f else f) statement template used
      rw [Asm.writeCode, first, Option.bind_some]
      dsimp only
      rw [written, Option.bind_some, ih later template' rest used', bytes]
      rfl

/-- The three formats besides C macros are those of the filters' bytes, on every host. -/
theorem assemble_spelled (host : Order) {lib : Libseccomp} {scmpArch : Word}
    (program : TextProgram lib scmpArch) (mode : PrintMode) (binary : mode ≠ .cMacro)
    (prog : List Filter) (done : assembled program.code = some prog) :
    assemble host lib scmpArch mode program.file =
      .ok (some ((prog.flatMap fun f => spelled mode (f.bytes (byteOrder scmpArch))) ++
        if mode = .hexline then ['\n'] else [])) := by
  have written := write_code_spelled host scmpArch mode binary program.code prog _ done
    (template_for mode binary)
  simp only [assemble, program.read, program.parses, program.resolves]
  rw [if_neg (by simp), written]
  rfl

/-- The bytes that `\x` escapes stand for in a string. -/
def unescape : Text → Option (List Byte)
  | [] => some []
  | '\\' :: 'x' :: high :: low :: rest =>
      match Asm.hexCode.idxOf? high, Asm.hexCode.idxOf? low, unescape rest with
      | some high, some low, some later => some (BitVec.ofNat 8 (16 * high + low) :: later)
      | _, _, _ => none
  | _ => none

theorem hex_code_read (digit : Fin 16) :
    Asm.hexCode.idxOf? (Asm.hexCode.getD digit.val '0') = some digit.val := by
  revert digit
  decide

theorem hexify_read (byte : Byte) : ∃ high low : Nat, 16 * high + low = byte.toNat ∧
    Asm.hexCode.idxOf? ((Asm.hexify byte).getD 0 '0') = some high ∧
    Asm.hexCode.idxOf? ((Asm.hexify byte).getD 1 '0') = some low := by
  have small : byte.toNat < 256 := byte.isLt
  have high : (byte >>> 4).toNat = byte.toNat / 16 := by
    simp [Nat.shiftRight_eq_div_pow]
  have low : (byte &&& 0xf).toNat = byte.toNat % 16 := by
    rw [BitVec.toNat_and]
    exact Nat.and_two_pow_sub_one_eq_mod byte.toNat 4
  refine ⟨byte.toNat / 16, byte.toNat % 16, Nat.div_add_mod _ _, ?_, ?_⟩
  · rw [Asm.hexify, List.getD_cons_zero, high]
    exact hex_code_read ⟨byte.toNat / 16, by omega⟩
  · rw [Asm.hexify, List.getD_cons_succ, List.getD_cons_zero, low]
    exact hex_code_read ⟨byte.toNat % 16, by omega⟩

theorem unescape_escaped (bytes : List Byte) : unescape (bytes.flatMap escape) = some bytes := by
  induction bytes with
  | nil => rfl
  | cons byte bytes ih =>
      obtain ⟨high, low, sum, first, second⟩ := hexify_read byte
      obtain ⟨c, d, digits⟩ := hexify_two byte
      rw [digits] at first second
      simp only [List.getD_cons_zero, List.getD_cons_succ] at first second
      have text : (byte :: bytes).flatMap escape =
          '\\' :: 'x' :: c :: d :: bytes.flatMap escape := by
        rw [List.flatMap_cons, escape, digits]
        rfl
      rw [text, unescape, first, second, ih]
      simp only [sum, BitVec.ofNat_toNat, BitVec.setWidth_eq]

/-- The raw format is the filters in the byte order of the target, whatever machine writes it;
the two formats for strings denote these bytes, one filter a line or all on one. -/
theorem formats_denote (host host' : Order) {lib : Libseccomp} {scmpArch : Word}
    (program : TextProgram lib scmpArch) :
    ∃ (prog : List Filter) (line : Text) (lines : List Text),
      assembled program.code = some prog ∧
      assemble host lib scmpArch .raw program.file =
        .ok (some ((prog.flatMap (Filter.bytes (byteOrder scmpArch))).map Byte.char)) ∧
      assemble host' lib scmpArch .hexline program.file = .ok (some (line ++ ['\n'])) ∧
      unescape line = some (prog.flatMap (Filter.bytes (byteOrder scmpArch))) ∧
      assemble host' lib scmpArch .hexfmt program.file =
        .ok (some (lines.flatMap fun line => '"' :: line ++ ['"', ',', '\n'])) ∧
      lines.map unescape = prog.map fun f => some (f.bytes (byteOrder scmpArch)) := by
  obtain ⟨insns, all⟩ := program_assembles program
  have written (host : Order) (mode : PrintMode) (binary : mode ≠ .cMacro) :=
    assemble_spelled host program mode binary _ all.assembled
  refine ⟨insns.map Insn.filter,
    ((insns.map Insn.filter).flatMap (Filter.bytes (byteOrder scmpArch))).flatMap escape,
    (insns.map Insn.filter).map fun f => (f.bytes (byteOrder scmpArch)).flatMap escape,
    all.assembled, ?_, ?_, unescape_escaped _, ?_, ?_⟩
  · rw [written host .raw (by decide), if_neg (by decide), List.append_nil, List.map_flatMap]
    rfl
  · rw [written host' .hexline (by decide), if_pos rfl, List.flatMap_assoc]
    rfl
  · rw [written host' .hexfmt (by decide), if_neg (by decide), List.append_nil]
    simp only [List.flatMap_map]
    rfl
  · rw [List.map_map]
    exact List.map_congr_left fun f _ => unescape_escaped _

theorem formats_denote_arch_guard :
    assemble .big namelessLib archX8664 .raw archGuardProgram.file =
      .ok (some ((archGuardFilters.flatMap (Filter.bytes .little)).map Byte.char)) := by
  obtain ⟨prog, _, _, same, raw, _⟩ := formats_denote .big .little archGuardProgram
  rw [arch_guard_assembled] at same
  cases same
  exact raw

end Ceccomp
