import Ceccomp.Text.Statement

/-!
`decoder/formatter.c` with colours off: the text of an object and of a statement. An
object whose type has no handler in `obj_print` is `none`.
-/

namespace Ceccomp

def hexText (value : Nat) : Text := Nat.toDigits 16 value

def decText (value : Nat) : Text := Nat.toDigits 10 value

def defaultLabel (nr : Nat) : Text := 'L' :: (decText nr).leftpad 4 '0'

namespace Formatter

def printNum (obj : Obj) : Text :=
  match obj.literal with
  | some literal => literal
  | none => '0' :: 'x' :: hexText obj.data.toNat

def printStr (obj : Obj) : Text := obj.type.spelling

def printIdentifier (obj : Obj) : Text := obj.literal.getD []

def printDecBracket (obj : Obj) : Text :=
  obj.type.spelling ++ '[' :: decText obj.data.toNat ++ [']']

def printHexBracket (obj : Obj) : Text :=
  obj.type.spelling ++ '[' :: '0' :: 'x' :: hexText obj.data.toNat ++ [']']

def printParen (obj : Obj) : Text := obj.type.spelling ++ '(' :: decText obj.data.toNat ++ [')']

def objPrint : TokenType → Option (Obj → Text)
  | .A | .X => some printStr
  | .mem => some printHexBracket
  | .attrLowarg | .attrHigharg => some printDecBracket
  | .attrSyscall | .attrArch | .attrLowpc | .attrHighpc | .attrLen => some printStr
  | .identifier => some printIdentifier
  | .number => some printNum
  | .killProc | .kill | .allow | .notify | .log => some printStr
  | .trace | .trap | .errno => some printParen
  | _ => none

def objPrinter (obj : Obj) : Option Text := (objPrint obj.type).map fun handler => handler obj

def assignLine (line : AssignLine) : Option Text :=
  match objPrinter line.leftVar, objPrinter line.rightVar with
  | some left, some right =>
      let operator :=
        if line.operator = .negative then ['=', ' ', '-'] else line.operator.spelling ++ [' ']
      some (left ++ ' ' :: operator ++ right)
  | _, _ => none

def printLabel (label : Label) (pc : Nat) : Text :=
  match label.key with
  | none => defaultLabel (pc + label.codeNr + 1)
  | some key => key

def printJa (line : JumpLine) (pc : Nat) : Text :=
  TokenType.goto.spelling ++ ' ' :: printLabel line.jt pc

def jumpLine (line : JumpLine) (pc : Nat) : Option Text :=
  if !line.ifCondition then some (printJa line pc)
  else
    match objPrinter (.of .A), objPrinter line.cmpobj with
    | some objA, some operand =>
        let bang := if line.ifBang then TokenType.bang.spelling else []
        let condition := TokenType.leftParen.spelling ++ objA ++ ' ' :: line.comparator.spelling ++
          ' ' :: operand ++ TokenType.rightParen.spelling
        let taken := TokenType.if_.spelling ++ ' ' :: bang ++ condition ++
          ' ' :: TokenType.goto.spelling ++ ' ' :: printLabel line.jt pc
        if line.jf.codeNr = 0 then some taken
        else
          some (taken ++ TokenType.comma.spelling ++ ' ' :: TokenType.else_.spelling ++
            ' ' :: TokenType.goto.spelling ++ ' ' :: printLabel line.jf pc)
    | _, _ => none

def returnLine (line : ReturnLine) : Option Text :=
  (objPrinter line.retObj).map fun obj => TokenType.return_.spelling ++ ' ' :: obj

/-- `print_comment`; the length is kept in 16 bits. -/
def printComment (statement : Statement) : Text :=
  match statement.comment with
  | none => []
  | some offset =>
      let commentLen := (statement.lineLen + 2 ^ 16 - offset % 2 ^ 16) % 2 ^ 16
      if commentLen = 0 then []
      else
        let comment := (statement.lineStart.drop offset).take commentLen
        if statement.line = .empty then comment else ' ' :: comment

end Formatter

/-- `print_statement` with the line break at its end; `none` is the failing assertion. -/
def printStatement (statement : Statement) : Option Text :=
  let printed :=
    match statement.line with
    | .assign line => Formatter.assignLine line
    | .jump line => Formatter.jumpLine line statement.codeNr
    | .return_ line => Formatter.returnLine line
    | .empty => some []
    | .error _ | .eof => none
  printed.map fun text => text ++ Formatter.printComment statement ++ ['\n']

end Ceccomp
