import Mathlib.Logic.Function.Basic

/-!
The diagnostics of `utils/error.h` that the modelled functions report. A message
is named after its macro; `text` is the untranslated string.
-/

namespace Ceccomp

inductive Message where
  -- read_source
  | foundSusZero | foundSusNoLf | foundSusLine | fileTooLarge | linesTooMany
  -- parser
  | unexpectToken | duplicatedLabel | numberOverflow | expectOperator | expectRightVar
  | expectReturnVal | expectNumber | expectParen | expectBracket | expectCompartor
  | expectLabel | expectSyscall | expectArch | expectGoto | expectA | expectElse
  | statementOverflow
  -- resolver and check_prog
  | cannotFindLabel | rightShouldBeA | rightCanNotBeA | rightCanNotBeX | rightShouldBeAOrX
  | rightShouldBeXOrNum | operatorShouldBeEqual | leftShouldBeA | invalidAttrLoad
  | attrOffsetOverflow | argsIdxOutOfRange | memIdxOutOfRange | uninitializedMem
  | aluDivByZero | aluShOutOfRange | retDataOverflow | jtTooFar | jtMustBePositive
  | jfTooFar | jfMustBePositive | jtInvalidTag | jfInvalidTag | jaOutOfFilters
  | jaMustBePositive | mustEndWithRet | noValidCode | invalidOperation
  -- asm, emu and disasm give up
  | asmTerminated | emuTerminated | probeTerminated | disasmTerminated
  | inputSysNr | invalidSysnr
  deriving DecidableEq, Repr

def Message.text : Message → String
  | .foundSusZero => "Found '\\0' at file offset %lu, perhaps it's not a text file?"
  | .foundSusNoLf => "No line break in source file, perhaps it's not a text file?"
  | .foundSusLine => "Line %u has more than %u bytes, perhaps the input is not a text file?"
  | .fileTooLarge => "The input file is greater than 4 MiB!"
  | .linesTooMany => "Found more than 16384 lines of text, perhaps it's not for ceccomp?"
  | .unexpectToken => "Unexpected token"
  | .duplicatedLabel => "Found duplicated label declaration"
  | .numberOverflow => "Input number exceeds 32-bit range"
  | .expectOperator => "Expect operator"
  | .expectRightVar => "Expect rvalue"
  | .expectReturnVal => "Expect return value"
  | .expectNumber => "Expect number"
  | .expectParen => "Expect parenthesis"
  | .expectBracket => "Expect bracket"
  | .expectCompartor => "Expect comparator"
  | .expectLabel => "Expect label"
  | .expectSyscall => "Expect valid syscall name"
  | .expectArch =>
      "Architecture token does not match any libseccomp arch, perhaps system libseccomp is too old"
  | .expectGoto => "Expect 'goto'"
  | .expectA => "Expect '$A'"
  | .expectElse => "Expect 'else'"
  | .statementOverflow => "Input file has more than 4096 statements!"
  | .cannotFindLabel => "Can not find label declaration"
  | .rightShouldBeA => "Rvalue should be '$A'"
  | .rightCanNotBeA => "Rvalue can not be '$A'"
  | .rightCanNotBeX => "Rvalue can not be '$X'"
  | .rightShouldBeAOrX => "Rvalue should be '$A' or '$X'"
  | .rightShouldBeXOrNum => "Rvalue should be '$X' or number"
  | .operatorShouldBeEqual => "Operator should be '='"
  | .leftShouldBeA => "Lvalue should be '$A'"
  | .invalidAttrLoad => "seccomp_data load offset must be 4-byte aligned"
  | .attrOffsetOverflow => "seccomp_data load offset greater than the struct"
  | .argsIdxOutOfRange => "Args index out of range (0-5)"
  | .memIdxOutOfRange => "Mem index out of range (0-15)"
  | .uninitializedMem => "Accessing uninitialized mem"
  | .aluDivByZero => "Dividing by zero"
  | .aluShOutOfRange => "Left or right shifting more than 32 bits"
  | .retDataOverflow => "Data carried by return motion exceeds 0xffff"
  | .jtTooFar => "JT is larger than 0xff"
  | .jtMustBePositive => "JT must be positive"
  | .jfTooFar => "JF is larger than 0xff"
  | .jfMustBePositive => "JF must be positive"
  | .jtInvalidTag => "JT out of filters"
  | .jfInvalidTag => "JF out of filters"
  | .jaOutOfFilters => "JA out of filters"
  | .jaMustBePositive => "JA must be positive"
  | .mustEndWithRet => "BPF filters must end with return"
  | .noValidCode => "The input does not contain any valid statement"
  | .invalidOperation => "Invalid or unknown operation"
  | .asmTerminated => "Found errors when assembling"
  | .emuTerminated => "Found errors when assembling text before emulating"
  | .probeTerminated => "Found errors when assembling BPF from trace"
  | .disasmTerminated => "Found fatal errors when disassembling"
  | .inputSysNr => "Please input syscall_nr (syscall name or number)"
  | .invalidSysnr => "Invalid syscall_nr"

end Ceccomp
