import Ceccomp.Bpf.Filter

/-!
`lexical/token.h`: the token types in the order of the enumeration, which range
tests rely on, and the spelling `token_pairs` gives each of them. Text is a list
of characters, one for each byte.
-/

namespace Ceccomp

inductive TokenType where
  | archX86 | archI686 | archX86_64
  | archX32 | archAarch64
  | archArmv8l | archArmv7l | archArm
  | archLoongarch64 | archM68k | archMipsel64n32
  | archMipsel64 | archMipsel | archMips64n32
  | archMips64 | archMips | archParisc64
  | archParisc | archPpc64le | archPpc64
  | archPpc | archS390x | archS390
  | archRiscv64 | archSh4 | archSheb | archSh
  | killProc | kill | allow | notify
  | log | trace | trap | errno
  | return_ | if_ | goto | else_ | comma
  | A | X | mem | attrLen
  | attrSyscall | attrArch | attrLowpc | attrHighpc
  | attrLowarg | attrHigharg
  | dot
  | leftBracket | rightBracket
  | leftParen | rightParen
  | addTo | subTo | multiTo
  | divideTo | lshTo | rshTo
  | andTo | orTo | xorTo
  | equalEqual | bangEqual
  | greaterEqual | greaterThan
  | lessEqual | lessThan
  | and | equal
  | negative | bang
  | number | identifier | unknown | comment | eol
  | tokenEof | labelDecl | overflowNumber
  deriving DecidableEq, Repr

def TokenType.fromTo (type from_ to_ : TokenType) : Bool :=
  decide (from_.ctorIdx ≤ type.ctorIdx) && decide (type.ctorIdx ≤ to_.ctorIdx)

def TokenType.pair : TokenType → String
  | .archX86 => "i386" | .archI686 => "i686" | .archX86_64 => "x86_64"
  | .archX32 => "x32" | .archAarch64 => "aarch64"
  | .archArmv8l => "armv8l" | .archArmv7l => "armv7l" | .archArm => "arm"
  | .archLoongarch64 => "loongarch64" | .archM68k => "m68k"
  | .archMipsel64n32 => "mipsel64n32" | .archMipsel64 => "mipsel64"
  | .archMipsel => "mipsel" | .archMips64n32 => "mips64n32"
  | .archMips64 => "mips64" | .archMips => "mips"
  | .archParisc64 => "parisc64" | .archParisc => "parisc"
  | .archPpc64le => "ppc64le" | .archPpc64 => "ppc64" | .archPpc => "ppc"
  | .archS390x => "s390x" | .archS390 => "s390" | .archRiscv64 => "riscv64"
  | .archSh4 => "sh4" | .archSheb => "sheb" | .archSh => "sh"
  | .killProc => "KILL_PROCESS" | .kill => "KILL" | .allow => "ALLOW"
  | .notify => "NOTIFY" | .log => "LOG" | .trace => "TRACE"
  | .trap => "TRAP" | .errno => "ERRNO"
  | .return_ => "return" | .if_ => "if" | .goto => "goto"
  | .else_ => "else" | .comma => ","
  | .A => "$A" | .X => "$X" | .mem => "$mem"
  | .attrLen => "$scmp_data_len" | .attrSyscall => "$syscall_nr"
  | .attrArch => "$arch" | .attrLowpc => "$low_pc"
  | .attrHighpc => "$high_pc" | .attrLowarg => "$low_args"
  | .attrHigharg => "$high_args"
  | .dot => "."
  | .leftBracket => "[" | .rightBracket => "]" | .leftParen => "("
  | .rightParen => ")" | .addTo => "+=" | .subTo => "-="
  | .multiTo => "*=" | .divideTo => "/=" | .lshTo => "<<="
  | .rshTo => ">>=" | .andTo => "&=" | .orTo => "|="
  | .xorTo => "^="
  | .equalEqual => "==" | .bangEqual => "!=" | .greaterEqual => ">="
  | .greaterThan => ">" | .lessEqual => "<=" | .lessThan => "<"
  | .and => "&" | .equal => "=" | .negative => "-"
  | .bang => "!"
  | .number => "number" | .identifier => "identifier"
  | .unknown => "unknown" | .comment => "#"
  | .eol => "line_end" | .tokenEof => "eof"
  | .labelDecl => "label_decl" | .overflowNumber => "ERANGE"

def TokenType.spelling (type : TokenType) : List Char := type.pair.toList

theorem spelling_nonempty (type : TokenType) : type.spelling ≠ [] := by
  cases type <;> simp [TokenType.spelling, TokenType.pair]

end Ceccomp
