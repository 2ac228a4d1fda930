import Ceccomp.Emu.Agreement
import Ceccomp.Text.Operands

/-!
`c_macro_handle` of `asm.c`: a filter as one line of C, and the filter that the Linux
headers make of that line. A failing assertion is `none`.
-/

namespace Ceccomp

/-- The names that `valid_codes.h` builds opcodes from. -/
inductive CodeMacro where
  | ld | ldx | st | stx | alu | jmp | ret | misc
  | w | abs | len | imm | mem
  | add | sub | mul | div | and | or | xor | lsh | rsh | neg
  | ja | jeq | jge | jgt | jset
  | k | x | a | tax | txa
  deriving DecidableEq, Repr

def CodeMacro.text : CodeMacro → String
  | .ld => "BPF_LD"
  | .ldx => "BPF_LDX"
  | .st => "BPF_ST"
  | .stx => "BPF_STX"
  | .alu => "BPF_ALU"
  | .jmp => "BPF_JMP"
  | .ret => "BPF_RET"
  | .misc => "BPF_MISC"
  | .w => "BPF_W"
  | .abs => "BPF_ABS"
  | .len => "BPF_LEN"
  | .imm => "BPF_IMM"
  | .mem => "BPF_MEM"
  | .add => "BPF_ADD"
  | .sub => "BPF_SUB"
  | .mul => "BPF_MUL"
  | .div => "BPF_DIV"
  | .and => "BPF_AND"
  | .or => "BPF_OR"
  | .xor => "BPF_XOR"
  | .lsh => "BPF_LSH"
  | .rsh => "BPF_RSH"
  | .neg => "BPF_NEG"
  | .ja => "BPF_JA"
  | .jeq => "BPF_JEQ"
  | .jge => "BPF_JGE"
  | .jgt => "BPF_JGT"
  | .jset => "BPF_JSET"
  | .k => "BPF_K"
  | .x => "BPF_X"
  | .a => "BPF_A"
  | .tax => "BPF_TAX"
  | .txa => "BPF_TXA"

/-- `linux/bpf_common.h` and `linux/filter.h` -/
def CodeMacro.value : CodeMacro → BitVec 16
  | .ld | .w | .imm | .add | .ja | .k | .tax => 0x00
  | .ldx => 0x01
  | .st => 0x02
  | .stx => 0x03
  | .alu => 0x04
  | .jmp => 0x05
  | .ret => 0x06
  | .misc => 0x07
  | .x => 0x08
  | .sub | .jeq | .a => 0x10
  | .abs | .mul | .jgt => 0x20
  | .div | .jge => 0x30
  | .or | .jset => 0x40
  | .and => 0x50
  | .mem | .lsh => 0x60
  | .rsh => 0x70
  | .len | .neg | .txa => 0x80
  | .xor => 0xa0

def insnNames : List (List CodeMacro) :=
  [[.ld, .w, .abs], [.ld, .w, .len], [.ldx, .w, .len], [.ret, .k], [.ret, .a],
    [.alu, .add, .k], [.alu, .add, .x], [.alu, .sub, .k], [.alu, .sub, .x],
    [.alu, .mul, .k], [.alu, .mul, .x], [.alu, .div, .k], [.alu, .div, .x],
    [.alu, .and, .k], [.alu, .and, .x], [.alu, .or, .k], [.alu, .or, .x],
    [.alu, .xor, .k], [.alu, .xor, .x], [.alu, .lsh, .k], [.alu, .lsh, .x],
    [.alu, .rsh, .k], [.alu, .rsh, .x], [.alu, .neg],
    [.ld, .imm], [.ldx, .imm], [.misc, .tax], [.misc, .txa], [.ld, .mem], [.ldx, .mem],
    [.st], [.stx], [.jmp, .ja],
    [.jmp, .jeq, .k], [.jmp, .jeq, .x], [.jmp, .jge, .k], [.jmp, .jge, .x],
    [.jmp, .jgt, .k], [.jmp, .jgt, .x], [.jmp, .jset, .k], [.jmp, .jset, .x]]

def codeValue : List CodeMacro → BitVec 16
  | [] => 0
  | name :: rest => name.value ||| codeValue rest

/-- `get_insn_name`. An opcode inside the table without a row has the index 0 and gets the
first name; outside of the table there is nothing to read. -/
def getInsnName (insnCode : BitVec 16) : Option (List CodeMacro) :=
  if insnCode.toNat > maxValidInsn then none
  else some ((insnNames.find? (fun names => codeValue names = insnCode)).getD [.ld, .w, .abs])

/-- The return values that `c_macro_handle` has a name for. -/
inductive RetMacro where
  | kill | killProcess | allow | log | userNotif | trace | trap | errno
  deriving DecidableEq, Repr

def RetMacro.text : RetMacro → String
  | .kill => "SECCOMP_RET_KILL"
  | .killProcess => "SECCOMP_RET_KILL_PROCESS"
  | .allow => "SECCOMP_RET_ALLOW"
  | .log => "SECCOMP_RET_LOG"
  | .userNotif => "SECCOMP_RET_USER_NOTIF"
  | .trace => "SECCOMP_RET_TRACE"
  | .trap => "SECCOMP_RET_TRAP"
  | .errno => "SECCOMP_RET_ERRNO"

def RetMacro.value : RetMacro → Word
  | .kill => 0x00000000
  | .killProcess => 0x80000000
  | .allow => 0x7fff0000
  | .log => 0x7ffc0000
  | .userNotif => 0x7fc00000
  | .trace => 0x7ff00000
  | .trap => 0x00030000
  | .errno => 0x00050000

/-- `SECCOMP_RET_ACTION` of `linux/seccomp.h`, which leaves the highest bit out. -/
def seccompRetAction : Word := 0x7fff0000

def scmpArchs : List (String × Word) :=
  [("SCMP_ARCH_X86", 0x40000003), ("SCMP_ARCH_X86_64", 0xC000003E),
    ("SCMP_ARCH_X32", 0x4000003E), ("SCMP_ARCH_AARCH64", 0xC00000B7),
    ("SCMP_ARCH_ARM", 0x40000028), ("SCMP_ARCH_LOONGARCH64", 0xC0000102),
    ("SCMP_ARCH_M68K", 0x00000004), ("SCMP_ARCH_SH", 0x4000002A),
    ("SCMP_ARCH_SHEB", 0x0000002A), ("SCMP_ARCH_MIPSEL64N32", 0xE0000008),
    ("SCMP_ARCH_MIPSEL64", 0xC0000008), ("SCMP_ARCH_MIPSEL", 0x40000008),
    ("SCMP_ARCH_MIPS64N32", 0xA0000008), ("SCMP_ARCH_MIPS64", 0x80000008),
    ("SCMP_ARCH_MIPS", 0x00000008), ("SCMP_ARCH_PARISC64", 0x8000000F),
    ("SCMP_ARCH_PARISC", 0x0000000F), ("SCMP_ARCH_PPC64LE", 0xC0000015),
    ("SCMP_ARCH_PPC64", 0x80000015), ("SCMP_ARCH_PPC", 0x00000014),
    ("SCMP_ARCH_S390X", 0x80000016), ("SCMP_ARCH_S390", 0x00000016),
    ("SCMP_ARCH_RISCV64", 0xC00000F3)]

def scmpArchToScmpStr (scmpArch : Word) : Option String :=
  (scmpArchs.find? (fun row => row.2 = scmpArch)).map Prod.fst

def scmpArchValue (name : String) : Option Word :=
  (scmpArchs.find? (fun row => row.1 = name)).map Prod.snd

inductive DataMember where
  | nr | arch | instructionPointer
  | args (idx : Fin 6)
  deriving DecidableEq, Repr

def DataMember.text : DataMember → Text
  | .nr => "nr".toList
  | .arch => "arch".toList
  | .instructionPointer => "instruction_pointer".toList
  | .args idx => "args[".toList ++ decText idx.val ++ [']']

def DataMember.offset : DataMember → Word
  | .nr => 0
  | .arch => 4
  | .instructionPointer => 8
  | .args idx => BitVec.ofNat 32 (16 + 8 * idx.val)

inductive COperand where
  | hex (value : Word)
  | sysName (name : Text)
  | scmpArch (name : String)
  | offset (member : DataMember) (extraOff : Bool)
  | ret (macroName : RetMacro)
  | retData (macroName : RetMacro) (data : Word)
  deriving DecidableEq, Repr

def altHexText (value : Word) : Text :=
  if value = 0 then ['0'] else '0' :: 'x' :: hexText value.toNat

def COperand.text : COperand → Text
  | .hex value => altHexText value
  | .sysName name => "SYS_".toList ++ name
  | .scmpArch name => name.toList
  | .offset member extraOff =>
      "offsetof(struct seccomp_data, ".toList ++ member.text ++ [')'] ++
        if extraOff then " + 4".toList else []
  | .ret macroName => macroName.text.toList
  | .retData macroName data => macroName.text.toList ++ " | ".toList ++ altHexText data

/-- What the C compiler makes of an operand, with the numbers of the `SYS_` names. -/
def COperand.value (sysNr : Text → Word) : COperand → Option Word
  | .hex value => some value
  | .sysName name => some (sysNr name)
  | .scmpArch name => scmpArchValue name
  | .offset member extraOff => some (member.offset + if extraOff then 4 else 0)
  | .ret macroName => some macroName.value
  | .retData macroName data => some (macroName.value ||| data)

inductive MacroLine where
  | stmt (code : List CodeMacro) (k : COperand)
  | jump (code : List CodeMacro) (k : COperand) (jt jf : BitVec 8)
  deriving DecidableEq, Repr

def codeText (code : List CodeMacro) : Text :=
  (" | ".intercalate (code.map CodeMacro.text)).toList

def MacroLine.text : MacroLine → Text
  | .stmt code k => "BPF_STMT(".toList ++ codeText code ++ [',', ' '] ++ k.text ++ "),\n".toList
  | .jump code k jt jf =>
      "BPF_JUMP(".toList ++ codeText code ++ [',', ' '] ++ k.text ++ [',', ' '] ++
        decText jt.toNat ++ [',', ' '] ++ decText jf.toNat ++ "),\n".toList

def MacroLine.filter? (sysNr : Text → Word) : MacroLine → Option Filter
  | .stmt code k => (k.value sysNr).map fun k => { code := codeValue code, jt := 0, jf := 0, k }
  | .jump code k jt jf => (k.value sysNr).map fun k => { code := codeValue code, jt, jf, k }

namespace CMacro

def jumpOperand (line : JumpLine) (k : Word) : Option COperand :=
  match line.cmptype with
  | .number | .archSyscall => some (.hex k)
  | .syscall => some (.sysName (line.cmpobj.literal.getD []))
  | .arch => (scmpArchToScmpStr k).map .scmpArch

def arg (idx : Nat) : Option DataMember :=
  if inside : idx < 6 then some (.args ⟨idx, inside⟩) else none

/-- The member that `f->k >> 2` selects. -/
def member (k : Word) : Option DataMember :=
  match (k >>> 2).toNat with
  | 0 => some .nr
  | 1 => some .arch
  | 2 | 3 => some .instructionPointer
  | 4 | 5 => arg 0
  | 6 | 7 => arg 1
  | 8 | 9 => arg 2
  | 10 | 11 => arg 3
  | 12 | 13 => arg 4
  | 14 | 15 => arg 5
  | _ => none

def extraOff (k : Word) : Bool := k &&& 4 ≠ 0 && k ≠ 4

def datalessCases : List RetMacro := [.kill, .killProcess, .allow, .log, .userNotif]

def datafulCases : List RetMacro := [.trace, .trap, .errno]

def retOperand (k : Word) : COperand :=
  match datalessCases.find? (fun macroName => macroName.value = k) with
  | some macroName => .ret macroName
  | none =>
      match datafulCases.find? (fun macroName => macroName.value = k &&& seccompRetAction) with
      | some macroName => .retData macroName (k &&& seccompRetData)
      | none => .hex k

end CMacro

def cMacroHandle (f : Filter) (statement : Statement) : Option MacroLine :=
  (getInsnName f.code).bind fun codeStr =>
    if bpfClass f.code = 0x05 then
      match statement.line with
      | .jump line => (CMacro.jumpOperand line f.k).map fun k => .jump codeStr k f.jt f.jf
      -- `stmt->jump_line` would be the bytes of another member of the union
      | _ => none
    -- `BPF_LD | BPF_W | BPF_ABS`
    else if f.code = 0x20 then
      (CMacro.member f.k).map fun member => .stmt codeStr (.offset member (CMacro.extraOff f.k))
    -- `BPF_RET | BPF_K`
    else if f.code = 0x06 then some (.stmt codeStr (CMacro.retOperand f.k))
    else some (.stmt codeStr (.hex f.k))

example : (cMacroHandle ⟨0x06, 0, 0, 0x00050001⟩ .zero).map MacroLine.text =
    some "BPF_STMT(BPF_RET | BPF_K, SECCOMP_RET_ERRNO | 0x1),\n".toList := by
  decide +kernel

theorem get_insn_name_code (insn : Insn) :
    ∃ names, getInsnName insn.code = some names ∧ codeValue names = insn.code := by
  have spelled : (getInsnName insn.code).map codeValue = some insn.code := by
    cases insn with
    | ldLen dst | ldImm dst _ | ldMem dst _ | st dst _ => cases dst <;> rfl
    | alu op src =>
        simp only [Insn.code]
        cases src <;> cases op <;> simp only [Src.bit] <;> decide
    | jmp op src _ _ =>
        simp only [Insn.code]
        cases src <;> cases op <;> simp only [Src.bit] <;> decide
    | ldAbs _ | neg | tax | txa | ja _ | retA | retK _ => rfl
  apply Option.map_eq_some_iff.mp spelled

theorem scmp_arch_named (row : TokenType × Word) (known : row ∈ archTable ++ archAliases) :
    ∃ name, scmpArchToScmpStr row.2 = some name ∧ scmpArchValue name = some row.2 := by
  have named : ∀ row ∈ archTable ++ archAliases,
      (scmpArchToScmpStr row.2).bind scmpArchValue = some row.2 := by
    decide
  apply Option.bind_eq_some_iff.mp (named row known)

theorem ret_masks_split (k : Word) :
    (k &&& seccompRetAction) ||| (k &&& seccompRetData) = k ↔ k.toNat < 2 ^ 31 := by
  have joined : (k &&& seccompRetAction) ||| (k &&& seccompRetData) = k &&& 0x7fffffff := by
    rw [← BitVec.and_or_distrib_left]
    rfl
  have low : (k &&& 0x7fffffff).toNat = k.toNat % 2 ^ 31 := by
    rw [BitVec.toNat_and]
    exact Nat.and_two_pow_sub_one_eq_mod k.toNat 31
  rw [joined, ← BitVec.toNat_inj, low]
  constructor
  · intro same
    rw [← same]
    apply Nat.mod_lt
    decide
  · intro small
    apply Nat.mod_eq_of_lt small

/-- The return values of which `c_macro_handle` forgets the highest bit. -/
def HighBitLost (k : Word) : Prop :=
  2 ^ 31 ≤ k.toNat ∧ ∃ macroName ∈ CMacro.datafulCases, macroName.value = k &&& seccompRetAction

theorem dataless_kept (k : Word) (among : k ∈ CMacro.datalessCases.map RetMacro.value) :
    ¬ HighBitLost k := by
  have other : ∀ plain ∈ CMacro.datalessCases, ∀ carrying ∈ CMacro.datafulCases,
      carrying.value ≠ plain.value &&& seccompRetAction := by
    decide
  obtain ⟨plain, own, rfl⟩ := List.mem_map.mp among
  rintro ⟨_, carrying, member, action⟩
  exact other plain own carrying member action

theorem ret_operand_value (sysNr : Text → Word) (k : Word) :
    (CMacro.retOperand k).value sysNr = some k ↔ ¬ HighBitLost k := by
  unfold CMacro.retOperand
  split
  · next macroName found =>
      have same : macroName.value = k := by simpa using List.find?_some found
      have member := List.mem_map_of_mem (f := RetMacro.value) (List.mem_of_find?_eq_some found)
      rw [same] at member
      constructor
      · intro _
        apply dataless_kept k member
      · intro _
        rw [← same]
        rfl
  · split
    · next macroName found =>
        have same : macroName.value = k &&& seccompRetAction := by
          simpa using List.find?_some found
        have member := List.mem_of_find?_eq_some found
        simp only [COperand.value, Option.some.injEq]
        rw [same, ret_masks_split]
        constructor
        · rintro small ⟨large, _⟩
          exact absurd large (Nat.not_le.mpr small)
        · intro kept
          by_cases small : k.toNat < 2 ^ 31
          · exact small
          · exact absurd ⟨Nat.le_of_not_lt small, macroName, member, same⟩ kept
    · next missing =>
        have none_ := List.find?_eq_none.mp missing
        constructor
        · rintro _ ⟨_, macroName, member, action⟩
          exact none_ macroName member (by simpa using action)
        · intro _
          rfl

/-- The words of `struct seccomp_data` that a load may ask for, under their own names. -/
theorem member_offset (k : Word) (inside : k.toNat < seccompDataSize) (aligned : k.toNat % 4 = 0) :
    ∃ member, CMacro.member k = some member ∧
      member.offset + (if CMacro.extraOff k then 4 else 0) = k := by
  have each : ∀ word < 16, ((CMacro.member (BitVec.ofNat 32 (4 * word))).map fun member =>
      member.offset + (if CMacro.extraOff (BitVec.ofNat 32 (4 * word)) then 4 else 0)) =
        some (BitVec.ofNat 32 (4 * word)) := by
    decide
  have word : k = BitVec.ofNat 32 (4 * (k.toNat / 4)) := by
    apply BitVec.eq_of_toNat_eq
    rw [BitVec.toNat_ofNat]
    simp only [seccompDataSize] at inside
    omega
  have own := each (k.toNat / 4) (by
    simp only [seccompDataSize] at inside
    omega)
  rw [← word] at own
  apply Option.map_eq_some_iff.mp own

theorem jump_operand_value (lib : Libseccomp) (localArch : Word) (line : JumpLine) (insn : Insn)
    (stands : line.Stands insn) (spelled : line.Spelled lib localArch) :
    ∃ operand, CMacro.jumpOperand line insn.k = some operand ∧
      operand.value (lib.resolveNameArch localArch) = some insn.k := by
  -- a named operand is a number, and it is the one in the instruction
  have compared (named : line.cmptype ≠ .number) (type : line.cmpobj.type = .number) :
      insn.k = line.cmpobj.data := by
    cases stands with
    | ja plain => exact absurd (spelled.plain plain) named
    | jmp op src reversed conditional comparator able operand =>
        rcases src_cases _ _ operand with ⟨register, _⟩ | ⟨_, rfl⟩
        · rw [type] at register
          cases register
        · rfl
  unfold CMacro.jumpOperand
  cases kind : line.cmptype with
  | number | archSyscall => exact ⟨_, rfl, rfl⟩
  | syscall =>
      obtain ⟨type, name, literal, number⟩ := spelled.sysName kind
      have own := compared (by rw [kind]; decide) type
      have value : COperand.value (lib.resolveNameArch localArch) (.sysName name) = some insn.k := by
        rw [own, number]
        rfl
      exact ⟨.sysName name, by rw [literal]; rfl, value⟩
  | arch =>
      obtain ⟨type, token, row⟩ := spelled.arch kind
      have own := compared (by rw [kind]; decide) type
      obtain ⟨name, shown, value⟩ := scmp_arch_named _ row
      rw [own]
      exact ⟨.scmpArch name, by simp only [shown, Option.map_some], value⟩

/-- A return of a number whose highest bit `c_macro_handle` forgets. -/
def Line.HighBitLost (line : Line) : Prop :=
  ∃ return_, line = .return_ return_ ∧ return_.retObj.type = .number ∧
    Ceccomp.HighBitLost return_.retObj.data

theorem c_macro_stmt (insn : Insn) (statement : Statement) (names : List CodeMacro)
    (named : getInsnName insn.code = some names) (plain : bpfClass insn.code ≠ 0x05)
    (loads : insn.code ≠ 0x20) (returns : insn.code ≠ 0x06) :
    cMacroHandle insn.filter statement = some (.stmt names (.hex insn.k)) := by
  have code : insn.filter.code = insn.code := rfl
  unfold cMacroHandle
  rw [code, named, Option.bind_some, if_neg plain, if_neg loads, if_neg returns]
  rfl

theorem c_macro_jump (insn : Insn) (statement : Statement) (line : JumpLine) (operand : COperand)
    (names : List CodeMacro) (named : getInsnName insn.code = some names)
    (jumps : bpfClass insn.code = 0x05) (shape : statement.line = .jump line)
    (printed : CMacro.jumpOperand line insn.k = some operand) :
    cMacroHandle insn.filter statement = some (.jump names operand insn.jt insn.jf) := by
  have code : insn.filter.code = insn.code := rfl
  have k : insn.filter.k = insn.k := rfl
  unfold cMacroHandle
  rw [code, named, Option.bind_some, if_pos jumps, shape]
  simp only [k, printed, Option.map_some]
  rfl

/-- The line printed for a filter has the fields of that filter. -/
def Denoted (sysNr : Text → Word) (insn : Insn) (statement : Statement) : Prop :=
  ∃ line, cMacroHandle insn.filter statement = some line ∧ line.filter? sysNr = some insn.filter

theorem stmt_denoted (sysNr : Text → Word) (insn : Insn) (statement : Statement)
    (plain : bpfClass insn.code ≠ 0x05) (loads : insn.code ≠ 0x20) (returns : insn.code ≠ 0x06)
    (jt : insn.jt = 0) (jf : insn.jf = 0) : Denoted sysNr insn statement := by
  obtain ⟨names, named, code⟩ := get_insn_name_code insn
  refine ⟨_, c_macro_stmt insn statement names named plain loads returns, ?_⟩
  simp only [MacroLine.filter?, COperand.value, Option.map_some, Insn.filter, code, jt, jf]

theorem jump_denoted (lib : Libseccomp) (localArch : Word) (insn : Insn) (statement : Statement)
    (jumps : bpfClass insn.code = 0x05) (line : JumpLine) (shape : statement.line = .jump line)
    (stands : line.Stands insn) (spelled : line.Spelled lib localArch) :
    Denoted (lib.resolveNameArch localArch) insn statement := by
  obtain ⟨names, named, code⟩ := get_insn_name_code insn
  obtain ⟨operand, printed, value⟩ := jump_operand_value lib localArch line insn stands spelled
  refine ⟨_, c_macro_jump insn statement line operand names named jumps shape printed, ?_⟩
  simp only [MacroLine.filter?, value, Option.map_some, Insn.filter, code]

theorem load_denoted (sysNr : Text → Word) (k : Word) (statement : Statement)
    (inside : k.toNat < seccompDataSize) (aligned : k.toNat % 4 = 0) :
    Denoted sysNr (.ldAbs k) statement := by
  obtain ⟨names, named, code⟩ := get_insn_name_code (.ldAbs k)
  obtain ⟨member, found, offset⟩ := member_offset k inside aligned
  have handled : cMacroHandle (Insn.ldAbs k).filter statement =
      some (.stmt names (.offset member (CMacro.extraOff k))) := by
    unfold cMacroHandle
    have same : (Insn.ldAbs k).filter.code = 0x20 := rfl
    have row : getInsnName 0x20 = some names := named
    rw [same, row, Option.bind_some, if_neg (by decide), if_pos rfl]
    simp only [Insn.filter, Insn.k, found, Option.map_some]
  refine ⟨_, handled, ?_⟩
  simp only [MacroLine.filter?, COperand.value, Option.map_some, offset, code]
  rfl

theorem ret_denoted_iff (sysNr : Text → Word) (k : Word) (statement : Statement) :
    ∃ line, cMacroHandle (Insn.retK k).filter statement = some line ∧
      (line.filter? sysNr = some (Insn.retK k).filter ↔ ¬ HighBitLost k) := by
  obtain ⟨names, named, code⟩ := get_insn_name_code (.retK k)
  have handled : cMacroHandle (Insn.retK k).filter statement =
      some (.stmt names (CMacro.retOperand k)) := by
    unfold cMacroHandle
    have same : (Insn.retK k).filter.code = 0x06 := rfl
    have row : getInsnName 0x06 = some names := named
    rw [same, row, Option.bind_some, if_neg (by decide), if_neg (by decide), if_pos rfl]
    rfl
  refine ⟨_, handled, ?_⟩
  rw [← ret_operand_value sysNr k]
  constructor
  · intro whole
    obtain ⟨value, valued, same⟩ := Option.map_eq_some_iff.mp whole
    rw [valued]
    exact congrArg some (congrArg Filter.k same)
  · intro valued
    simp only [MacroLine.filter?, valued, Option.map_some, code]
    rfl

theorem insn_denoted (lib : Libseccomp) (localArch : Word) (statement : Statement) (insn : Insn)
    (stands : statement.line.Stands insn) (spelled : statement.line.Spelled lib localArch)
    (pc flen : Nat) (mask : BitVec 16) (admissible : insn.Admissible pc flen mask)
    (other : ∀ k, insn ≠ .retK k) : Denoted (lib.resolveNameArch localArch) insn statement := by
  have jump (jumps : bpfClass insn.code = 0x05) (line : JumpLine)
      (shape : statement.line = .jump line) :
      Denoted (lib.resolveNameArch localArch) insn statement := by
    rw [shape] at stands spelled
    apply jump_denoted lib localArch insn statement jumps line shape stands spelled
  cases insn with
  | retK k => exact absurd rfl (other k)
  | ldAbs k => apply load_denoted _ k statement admissible.1 admissible.2
  | ja k =>
      have jumps : bpfClass (Insn.ja k).code = 0x05 := by
        simp only [Insn.code]
        decide
      cases shape : statement.line with
      | jump line => apply jump jumps line shape
      | assign line | return_ line | empty | eof | error line =>
          rw [shape] at stands
          cases stands
  | jmp op src jt jf =>
      have jumps : bpfClass (Insn.jmp op src jt jf).code = 0x05 := by
        simp only [Insn.code]
        cases src <;> cases op <;> simp only [Src.bit] <;> decide
      cases shape : statement.line with
      | jump line => apply jump jumps line shape
      | assign line | return_ line | empty | eof | error line =>
          rw [shape] at stands
          cases stands
  | alu op src =>
      apply stmt_denoted _ _ _ _ _ _ rfl rfl <;> simp only [Insn.code] <;> cases src <;>
        cases op <;> simp only [Src.bit] <;> decide
  | ldLen dst | ldImm dst k | ldMem dst k | st dst k =>
      apply stmt_denoted _ _ _ _ _ _ rfl rfl <;> cases dst <;> simp only [Insn.code] <;> decide
  | neg | tax | txa | retA =>
      apply stmt_denoted _ _ _ _ _ _ rfl rfl <;> decide

theorem high_bit_clear (k : Word) (small : k.toNat < 2 ^ 31) : ¬ HighBitLost k :=
  fun lost => absurd lost.1 (Nat.not_le.mpr small)

theorem dataful_value (type : TokenType) (value : Word) (known : Asm.retvals type = some value)
    (among : type ∈ [.A, .number, .trace, .trap, .errno]) :
    type ∈ [.trace, .trap, .errno] ∧ value.toNat < 2 ^ 31 := by
  simp only [List.mem_cons, List.not_mem_nil, or_false] at among
  rcases among with rfl | rfl | rfl | rfl | rfl <;> cases known <;> decide

theorem dataless_value (type : TokenType) (value : Word) (known : Asm.retvals type = some value)
    (among : type ∈ [.killProc, .kill, .allow, .notify, .log]) :
    value ∈ CMacro.datalessCases.map RetMacro.value := by
  simp only [List.mem_cons, List.not_mem_nil, or_false] at among
  rcases among with rfl | rfl | rfl | rfl | rfl <;> cases known <;> decide

theorem action_kept (line : ReturnLine) (value : Word) (shaped : line.Shaped)
    (known : Asm.retvals line.retObj.type = some value)
    (carried : line.retObj.type ∈ [.trace, .trap, .errno] → line.retObj.data.toNat ≤ 0xffff) :
    ¬ HighBitLost (value ||| line.retObj.data) := by
  rcases shaped with among | ⟨among, zero⟩
  · obtain ⟨carries, high⟩ := dataful_value _ value known among
    have low : line.retObj.data.toNat < 2 ^ 31 :=
      Nat.lt_of_le_of_lt (carried carries) (by decide)
    apply high_bit_clear
    rw [BitVec.toNat_or]
    apply Nat.or_lt_two_pow high low
  · have same : value ||| line.retObj.data = value := by
      rw [zero]
      exact BitVec.or_zero
    rw [same]
    apply dataless_kept value (dataless_value _ value known among)

/-- Every line of the c-macro format is there, and it denotes the filter of its statement
unless the statement returns a number of which `SECCOMP_RET_ACTION` hides the highest bit. -/
theorem c_macro_denotes_iff (lib : Libseccomp) {localArch : Word}
    (program : TextProgram lib localArch) (statement : Statement)
    (member : statement ∈ program.code) :
    ∃ f line, asmStatement statement = some f ∧ cMacroHandle f statement = some line ∧
      (line.filter? (lib.resolveNameArch localArch) = some f ↔ ¬ statement.line.HighBitLost) := by
  obtain ⟨insns, assembles⟩ := program_assembles program
  have ready := program_ready program insns assembles
  rw [← program_ptrs program insns assembles] at member
  obtain ⟨j, found⟩ := List.mem_iff_getElem?.mp member
  obtain ⟨insn, mask, _, stands, admissible, _⟩ := ready_statement _ insns ready j statement found
  have near := ready.near statement (List.mem_filter.mp member).1
  rw [program_ptrs program insns assembles] at member
  have spelled := program_spelled program statement member
  -- only return k can lose bits; every other line denotes its filter
  by_cases returns : ∃ k, insn = .retK k
  · obtain ⟨k, rfl⟩ := returns
    obtain ⟨line, handled, denotes⟩ := ret_denoted_iff (lib.resolveNameArch localArch) k statement
    refine ⟨_, line, asm_stands statement _ stands, handled, denotes.trans (not_congr ?_)⟩
    cases shape : statement.line with
    | assign _ | jump _ | empty | eof | error _ =>
        rw [shape] at stands
        cases stands
    | return_ return_ =>
        obtain ⟨shaped, carried⟩ := near.ret return_ shape
        rw [shape] at stands
        constructor
        · intro lost
          cases stands with
          | number type => exact ⟨return_, rfl, type, lost⟩
          | action value known =>
              exact absurd lost (action_kept return_ value shaped known carried)
        · rintro ⟨_, same, type, lost⟩
          cases same
          cases stands with
          | number _ => exact lost
          | action value action =>
              rw [type] at action
              cases action
  · have other (k : Word) : insn ≠ .retK k := fun same => returns ⟨k, same⟩
    obtain ⟨line, handled, denotes⟩ := insn_denoted lib localArch statement insn stands spelled j
      insns.length mask admissible other
    refine ⟨_, line, asm_stands statement insn stands, handled, ?_⟩
    rw [denotes, eq_self_iff_true, true_iff]
    rintro ⟨return_, shape, type, _⟩
    rw [shape] at stands
    cases stands with
    | a register =>
        rw [type] at register
        cases register
    | number _ => exact other _ rfl
    | action value _ => exact other _ rfl

/-- The second statement of the guard, `if ($A != x86_64) goto bad`. -/
theorem c_macro_denotes_iff_arch_guard :
    ∃ statement, archGuardProgram.code[1]? = some statement ∧
      ∃ f line, asmStatement statement = some f ∧ cMacroHandle f statement = some line ∧
        (line.filter? (namelessLib.resolveNameArch archX8664) = some f ↔
          ¬ statement.line.HighBitLost) := by
  have inside : 1 < archGuardProgram.code.length := by decide +kernel
  exact ⟨archGuardProgram.code[1], List.getElem?_eq_getElem inside,
    c_macro_denotes_iff namelessLib archGuardProgram _ (List.getElem_mem inside)⟩

def trapUnderHighBit : Text := "return 0x80030005\n".toList

theorem trap_under_high_bit_read :
    (readProgram namelessLib archX8664 trapUnderHighBit).isSome = true := by
  decide +kernel

def trapUnderHighBitProgram : TextProgram namelessLib archX8664 :=
  (readProgram namelessLib archX8664 trapUnderHighBit).get trap_under_high_bit_read

/-- `return 0x80030005`, which kills the process, is printed as `SECCOMP_RET_TRAP | 0x5`. -/
theorem high_bit_changes_action :
    ¬ ∀ (lib : Libseccomp) (localArch : Word) (program : TextProgram lib localArch),
      ∀ statement ∈ program.code, ∃ f line, asmStatement statement = some f ∧
        cMacroHandle f statement = some line ∧
        line.filter? (lib.resolveNameArch localArch) = some f := by
  intro claim
  obtain ⟨f, line, asm, handled, denotes⟩ := claim namelessLib archX8664 trapUnderHighBitProgram
    (trapUnderHighBitProgram.code.headD .zero) (by decide +kernel)
  have own : asmStatement (trapUnderHighBitProgram.code.headD .zero) =
      some ⟨0x06, 0, 0, 0x80030005⟩ := by
    decide +kernel
  rw [own] at asm
  cases asm
  have printed : cMacroHandle ⟨0x06, 0, 0, 0x80030005⟩ (trapUnderHighBitProgram.code.headD .zero) =
      some (.stmt [.ret, .k] (.retData .trap 5)) := by
    decide +kernel
  rw [printed] at handled
  cases handled
  revert denotes
  decide

end Ceccomp
