import Ceccomp.Text.Resolver

/-!
`asm.c`: from resolved statements to filters. A failing assertion, or an index
outside one of the tables, is `none`.
-/

namespace Ceccomp

namespace Asm

def retvals : TokenType → Option Word
  | .killProc => some 0x80000000
  | .kill => some 0x00000000
  | .allow => some 0x7fff0000
  | .notify => some 0x7fc00000
  | .log => some 0x7ffc0000
  | .trace => some 0x7ff00000
  | .trap => some 0x00030000
  | .errno => some 0x00050000
  | _ => none

def returnLine (line : ReturnLine) : Option Filter :=
  let obj := line.retObj
  if obj.type = .A then some { code := 0x06 ||| 0x10, jt := 0, jf := 0, k := 0 }
  else if obj.type = .number then some { code := 0x06, jt := 0, jf := 0, k := obj.data }
  else (retvals obj.type).map fun value => { code := 0x06, jt := 0, jf := 0, k := value ||| obj.data }

def operatorTable : TokenType → Option (BitVec 16)
  | .addTo => some 0x00
  | .subTo => some 0x10
  | .multiTo => some 0x20
  | .divideTo => some 0x30
  | .lshTo => some 0x60
  | .rshTo => some 0x70
  | .andTo => some 0x50
  | .orTo => some 0x40
  | .xorTo => some 0xa0
  | _ => none

def aluLine (line : AssignLine) : Option Filter :=
  (operatorTable line.operator).map fun operator =>
    if line.rightVar.type = .X then { code := 0x04 ||| operator ||| 0x08, jt := 0, jf := 0, k := 0 }
    else if line.rightVar.type = .number then
      { code := 0x04 ||| operator, jt := 0, jf := 0, k := line.rightVar.data }
    else { code := 0x04 ||| operator, jt := 0, jf := 0, k := 0 }

def negativeLine : Filter := { code := 0x04 ||| 0x80, jt := 0, jf := 0, k := 0 }

def stStxLine (line : AssignLine) : Filter :=
  let code : BitVec 16 :=
    if line.rightVar.type = .A then 0x02 else if line.rightVar.type = .X then 0x03 else 0x00
  { code, jt := 0, jf := 0, k := line.leftVar.data }

def ldxLine (line : AssignLine) : Option Filter :=
  let right := line.rightVar
  if right.type = .A then some { code := 0x07 ||| 0x00, jt := 0, jf := 0, k := 0 }
  else if right.type = .number then some { code := 0x01 ||| 0x00, jt := 0, jf := 0, k := right.data }
  else if right.type = .mem then some { code := 0x01 ||| 0x60, jt := 0, jf := 0, k := right.data }
  else if right.type = .attrLen then some { code := 0x01 ||| 0x80, jt := 0, jf := 0, k := right.data }
  else none

def offsetTable : TokenType → Option Nat
  | .attrSyscall => some 0
  | .attrArch => some 4
  | .attrLowpc => some 8
  | .attrHighpc => some 12
  | .attrLowarg => some 16
  | .attrHigharg => some 20
  | _ => none

def offsetAbs (obj : Obj) : Option Word :=
  (offsetTable obj.type).map fun offset =>
    if obj.type = .attrLowarg ∨ obj.type = .attrHigharg then
      BitVec.ofNat 32 (offset + obj.data.toNat * 8)
    else BitVec.ofNat 32 offset

def ldLine (line : AssignLine) : Option Filter :=
  let right := line.rightVar
  if right.type = .X then some { code := 0x07 ||| 0x80, jt := 0, jf := 0, k := 0 }
  else if right.type = .attrLen then some { code := 0x00 ||| 0x80, jt := 0, jf := 0, k := 0 }
  else if right.type = .number then some { code := 0x00 ||| 0x00, jt := 0, jf := 0, k := right.data }
  else if right.type = .mem then some { code := 0x00 ||| 0x60, jt := 0, jf := 0, k := right.data }
  else (offsetAbs right).map fun k => { code := 0x00 ||| 0x00 ||| 0x20, jt := 0, jf := 0, k }

def assignLine (line : AssignLine) : Option Filter :=
  if line.operator.fromTo .addTo .xorTo then aluLine line
  else if line.operator = .negative then some negativeLine
  else if line.leftVar.type = .mem then some (stStxLine line)
  else if line.leftVar.type = .X then ldxLine line
  else if line.leftVar.type = .A then ldLine line
  else none

def comparatorTable : TokenType → Option (BitVec 16)
  | .equalEqual => some 0x10
  | .bangEqual => some 0x10
  | .greaterEqual => some 0x30
  | .lessThan => some 0x30
  | .greaterThan => some 0x20
  | .lessEqual => some 0x20
  | .and => some 0x40
  | _ => none

def jumpLine (line : JumpLine) : Option Filter :=
  if !line.ifCondition then
    some { code := 0x05 ||| 0x00, jt := 0, jf := 0, k := BitVec.ofNat 32 line.jt.codeNr }
  else
    let symReverse := line.comparator == .bangEqual || line.comparator == .lessEqual ||
      line.comparator == .lessThan
    let reversed := symReverse ^^ line.ifBang
    let jt := if reversed then line.jf else line.jt
    let jf := if reversed then line.jt else line.jf
    (comparatorTable line.comparator).map fun comparator =>
      { code := 0x05 ||| comparator ||| (if line.cmpobj.type = .X then 0x08 else 0x00)
        jt := BitVec.ofNat 8 jt.codeNr
        jf := BitVec.ofNat 8 jf.codeNr
        k := if line.cmpobj.type = .number then line.cmpobj.data else 0 }

end Asm

def asmStatement (statement : Statement) : Option Filter :=
  match statement.line with
  | .return_ line => Asm.returnLine line
  | .assign line => Asm.assignLine line
  | .jump line => Asm.jumpLine line
  | _ => none

/-- The filters of the resolved statements, one after the other. -/
def assembled : List Statement → Option (List Filter)
  | [] => some []
  | statement :: rest =>
      match asmStatement statement, assembled rest with
      | some f, some later => some (f :: later)
      | _, _ => none

end Ceccomp
