import Ceccomp.Text.Token
import Ceccomp.Messages

/-!
`lexical/parser.h`: statements, as the parser and the decoder build them. A
pointer into a line is the rest of that line from there; a `string_t` is the
characters it spans, `none` when its start is `NULL`.
-/

namespace Ceccomp

abbrev Text := List Char

/-- `obj_t`. For `MEM` and the argument attributes `data` is the index, for
numbers and actions the value. -/
structure Obj where
  type : TokenType
  data : Word
  literal : Option Text
  deriving DecidableEq, Repr

def Obj.of (type : TokenType) : Obj := { type, data := 0, literal := none }

def Obj.number (value : Word) : Obj := { type := .number, data := value, literal := none }

def Obj.at (type : TokenType) (idx : Word) : Obj := { type, data := idx, literal := none }

/-- `label_t`; `codeNr` is 16 bits wide. -/
structure Label where
  key : Option Text
  codeNr : Nat
  deriving DecidableEq, Repr

def Label.zero : Label := { key := none, codeNr := 0 }

structure AssignLine where
  leftVar : Obj
  operator : TokenType
  rightVar : Obj
  deriving DecidableEq, Repr

/-- `comparator_t` -/
inductive CmpType where
  | number | arch | syscall | archSyscall
  deriving DecidableEq, Repr

structure JumpLine where
  ifBang : Bool
  ifCondition : Bool
  cmptype : CmpType
  comparator : TokenType
  cmpobj : Obj
  jt : Label
  jf : Label
  deriving DecidableEq, Repr

structure ReturnLine where
  retObj : Obj
  -- what the emulator resolved the value to
  realObj : Obj
  deriving DecidableEq, Repr

structure ErrorLine where
  errorStart : Text
  errorMsg : Message
  deriving DecidableEq, Repr

/-- `expr_type` with the member of the union it selects. -/
inductive Line where
  | assign (line : AssignLine)
  | jump (line : JumpLine)
  | return_ (line : ReturnLine)
  | empty
  | eof
  | error (line : ErrorLine)
  deriving DecidableEq, Repr

/-- `statement_t`; `textNr`, `codeNr` and `lineLen` are 16 bits wide, and `comment` is
`none` where the source has -1. Its offsets fit `int16_t`: in front of a comment there are
at most six unknown characters, so that few lines of less than `MAX_LINE_LEN` were joined. -/
structure Statement where
  line : Line
  labelDecl : Option Text
  textNr : Nat
  codeNr : Nat
  lineStart : Text
  comment : Option Nat
  lineLen : Nat
  deriving DecidableEq, Repr

/-- What `memset` leaves of a statement. -/
def Statement.zero : Statement :=
  { line := .empty, labelDecl := none, textNr := 0, codeNr := 0, lineStart := [],
    comment := some 0, lineLen := 0 }

end Ceccomp
