import Ceccomp.Bpf.Machine
import Ceccomp.Text.Arch
import Ceccomp.Emu.Emulator

/-!
`init_attr`, `emulate_v` in quiet mode and the calls `probe` makes. The statements and
the static variables are handed from one call to the next; `error` ends the program.
-/

namespace Ceccomp

/-- `emu_arg_t` without the file, which has been read, and `quiet`, which is set. -/
structure EmuArg where
  scmpArch : Word
  sysName : Option Text
  args : Fin 6 → BitVec 64
  ip : BitVec 64

def EmuArg.data (arg : EmuArg) (nr : Word) : SeccompData :=
  { nr, arch := arg.scmpArch, instructionPointer := arg.ip, args := arg.args }

namespace Emu

/-- `strtoull (text, &end, 0)`: the value and what stands at `end`. -/
def strtoull (text : Text) : Nat × Text :=
  let body := text.dropWhile fun c => isSpace c || c == '\n'
  let (negative, digits) :=
    match body with
    | '-' :: rest => (true, rest)
    | '+' :: rest => (false, rest)
    | rest => (false, rest)
  if (peekAt digits 0).isDigit then
    let (value, length) := strtoul digits
    let rest := digits.drop length
    if 2 ^ 64 ≤ value then (2 ^ 64 - 1, rest)
    else if negative then ((2 ^ 64 - value) % 2 ^ 64, rest)
    else (value, rest)
  else (0, text)

/-- The number of the system call that `init_attr` is given by name. -/
def sysNumber (lib : Libseccomp) (arg : EmuArg) : Except Message Word :=
  match arg.sysName with
  | none => .error .inputSysNr
  | some name =>
      let nr := lib.resolveNameArch arg.scmpArch name
      -- __NR_SCMP_ERROR
      if nr = 0xFFFFFFFF then
        let (value, rest) := strtoull name
        if rest ≠ [] ∨ 2 ^ 32 ≤ value then .error .invalidSysnr else .ok (BitVec.ofNat 32 value)
      else .ok nr

/-- What `init_attr` puts in the variables; it leaves `mem` alone. -/
def entered (arg : EmuArg) (nr : Word) (vars : EmuVars) : EmuVars
  | .A | .X => 0
  | .syscallNr => nr
  | .scmpArch => arg.scmpArch
  | .lowPc => lowHalf arg.ip
  | .highPc => highHalf arg.ip
  | .lowArgs idx => if small : idx < 6 then lowHalf (arg.args ⟨idx, small⟩) else vars (.lowArgs idx)
  | .highArgs idx =>
      if small : idx < 6 then highHalf (arg.args ⟨idx, small⟩) else vars (.highArgs idx)
  | .mem idx => vars (.mem idx)
  | .dataLen => vars .dataLen

def initAttr (lib : Libseccomp) (arg : EmuArg) (vars : EmuVars) : Except Message EmuVars :=
  (sysNumber lib arg).map fun nr => entered arg nr vars

def resultObj (last : Statement) : Obj :=
  match last.line with
  | .return_ line => line.realObj
  | _ => .of .kill

/-- `emulate_v`: what it prints, and the statements and variables it leaves. -/
def emulateV (lib : Libseccomp) (text : List Statement) (vars : EmuVars) (arg : EmuArg) :
    Option (Except Message (Text × List Statement × EmuVars)) :=
  match initAttr lib arg vars with
  | .error message => some (.error message)
  | .ok vars =>
      match emulator text vars with
      | some (.out last state) =>
          (Formatter.objPrinter (resultObj last)).map fun shown =>
            .ok (shown ++ ['\n'], state.text, state.vars)
      | _ => none

/-- Calls one after another, and the statements and variables they leave. -/
def emulateAll (lib : Libseccomp) :
    List EmuArg → List Statement → EmuVars → Option (Except Message (List Statement × EmuVars))
  | [], text, vars => some (.ok (text, vars))
  | arg :: rest, text, vars =>
      match emulateV lib text vars arg with
      | none => none
      | some (.error message) => some (.error message)
      | some (.ok (_, text, vars)) => emulateAll lib rest text vars

/-- `init_emu_arg`, and the name that `probe` puts in it. -/
def probeArg (scmpArch : Word) (sysName : Text) : EmuArg :=
  { scmpArch, sysName := some sysName, args := fun _ => 0, ip := 0 }

end Emu

/-- The static variables before the first call, with `mem` as it may have been left. -/
def EmuVars.withMem (mem : Nat → Word) : EmuVars
  | .mem idx => mem idx
  | cell => EmuVars.static cell

def toTestList : List Text :=
  ["open".toList, "openat".toList, "read".toList, "write".toList, "execve".toList,
    "execveat".toList, "mmap".toList, "mprotect".toList, "sendfile".toList, "ptrace".toList,
    "fork".toList]

def probeName (name : Text) : Text := name.rightpad 10 ' ' ++ ['-', '>', ' ']

/-- The lines `probe` prints for the names, and the error that ended it. -/
def probeNames (lib : Libseccomp) (scmpArch : Word) :
    List Text → List Statement → EmuVars → Option (List Text × Option Message)
  | [], _, _ => some ([], none)
  | name :: rest, text, vars =>
      match Emu.emulateV lib text vars (Emu.probeArg scmpArch name) with
      | none => none
      | some (.error message) => some ([probeName name], some message)
      | some (.ok (shown, text, vars)) =>
          (probeNames lib scmpArch rest text vars).map fun (later, failed) =>
            ((probeName name ++ shown) :: later, failed)

/-- `probe` from its loop on, for a program that parser and resolver have accepted. -/
def probe (lib : Libseccomp) (scmpArch : Word) (text : List Statement) :
    Option (List Text × Option Message) :=
  probeNames lib scmpArch toTestList text .static

end Ceccomp
