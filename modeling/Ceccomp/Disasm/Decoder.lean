import Ceccomp.Check.Safety
import Ceccomp.Text.Statement

/-!
`decoder/decoder.c`: from encoded filters to statements. A failing assertion or
an index outside one of the tables is `none`; a hole in a table holds the zero
token type.
-/

namespace Ceccomp

/-- `abs_table`, indexed by the word of `struct seccomp_data`. -/
def absTable : Nat → Option TokenType
  | 0 => some .attrSyscall
  | 1 => some .attrArch
  | 2 => some .attrLowpc
  | 3 => some .attrHighpc
  | 4 | 6 | 8 | 10 | 12 | 14 => some .attrLowarg
  | 5 | 7 | 9 | 11 | 13 | 15 => some .attrHigharg
  | _ => none

def operatorTable : Nat → Option TokenType
  | 0 => some .addTo
  | 1 => some .subTo
  | 2 => some .multiTo
  | 3 => some .divideTo
  | 4 => some .orTo
  | 5 => some .andTo
  | 6 => some .lshTo
  | 7 => some .rshTo
  | 8 => some .negative
  | 9 => some .archX86
  | 10 => some .xorTo
  | _ => none

def comparatorTable : Nat → Option TokenType
  | 0 => some .archX86
  | 1 => some .equalEqual
  | 2 => some .greaterThan
  | 3 => some .greaterEqual
  | 4 => some .and
  | _ => none

def reverseTable : Nat → Option TokenType
  | 0 => some .archX86
  | 1 => some .bangEqual
  | 2 => some .lessEqual
  | 3 => some .lessThan
  | _ => none

def rsh4 (bits : BitVec 16) : Nat := bits.toNat / 16

def scmpDataLenStr : Text := "# 0x40".toList

namespace Decoder

/-- The operand `BPF_MODE` selects; `none` is the failing assertion. -/
def ldRight (f : Filter) : Option Obj :=
  match (bpfMode f.code).toNat with
  | 0x00 => some (.number f.k)
  | 0x60 => some (.at .mem f.k)
  | 0x20 =>
      (absTable (f.k.toNat / 4)).map fun type =>
        if type = .attrLowarg ∨ type = .attrHigharg then
          .at type (BitVec.ofNat 32 ((f.k.toNat - 16) / 8))
        else .of type
  | 0x80 => some (.of .attrLen)
  | _ => none

def ldLdxLine (f : Filter) (statement : Statement) : Option Statement :=
  (ldRight f).map fun right =>
    let line := Line.assign
      { leftVar := .of (if bpfClass f.code = 0x00 then .A else .X)
        operator := .equal
        rightVar := right }
    if bpfMode f.code = 0x80 then
      { statement with
        line, lineStart := scmpDataLenStr, comment := some 0, lineLen := scmpDataLenStr.length }
    else { statement with line }

def stStxLine (f : Filter) : Line :=
  .assign
    { leftVar := .at .mem f.k
      operator := .equal
      rightVar := .of (if bpfClass f.code = 0x02 then .A else .X) }

def aluLine (f : Filter) : Option Line :=
  (operatorTable (rsh4 (bpfOp f.code))).map fun operator =>
    .assign
      { leftVar := .of .A
        operator
        rightVar :=
          if bpfSrc f.code = 0x08 then .of .X
          else if operator = .negative then .of .A
          else .number f.k }

def condition (f : Filter) (ifBang : Bool) : Option (TokenType × Obj × Bool) :=
  let op := bpfOp f.code
  let operand := if bpfSrc f.code = 0x08 then Obj.of .X else .number f.k
  if !ifBang || op = 0x40 then
    (comparatorTable (rsh4 op)).map fun comparator => (comparator, operand, ifBang)
  else (reverseTable (rsh4 op)).map fun comparator => (comparator, operand, false)

def jumpLine (f : Filter) : Option Line :=
  let zeroed : JumpLine :=
    { ifBang := false, ifCondition := false, cmptype := .number, comparator := .archX86,
      cmpobj := .of .archX86, jt := .zero, jf := .zero }
  if bpfOp f.code = 0x00 then
    some (.jump { zeroed with jt := { key := none, codeNr := f.k.toNat % 2 ^ 16 } })
  else
    let ifBang := decide (f.jt = 0 ∧ f.jf ≠ 0)
    let jt : Label := { key := none, codeNr := if ifBang then f.jf.toNat else f.jt.toNat }
    let jf : Label := { key := none, codeNr := if ifBang then f.jt.toNat else f.jf.toNat }
    (condition f ifBang).map fun (comparator, cmpobj, ifBang) =>
      .jump { zeroed with ifCondition := true, ifBang, comparator, cmpobj, jt, jf }

end Decoder

def seccompRetActionFull : Word := 0xffff0000
def seccompRetData : Word := 0x0000ffff

/-- `decode_return_k`: the object it fills in and the action it returns, which is
the one the kernel takes for values it does not know. -/
def decodeReturnK (retObj : Obj) (k : Word) : Obj × TokenType :=
  match (k &&& seccompRetActionFull).toNat with
  | 0x80000000 => ({ retObj with type := .killProc }, .killProc)
  | 0x00000000 => ({ retObj with type := .kill }, .kill)
  | 0x7fff0000 => ({ retObj with type := .allow }, .allow)
  | 0x7ffc0000 => ({ retObj with type := .log }, .log)
  | 0x7fc00000 => ({ retObj with type := .notify }, .notify)
  | 0x7ff00000 => ({ retObj with type := .trace, data := k &&& seccompRetData }, .trace)
  | 0x00030000 => ({ retObj with type := .trap, data := k &&& seccompRetData }, .trap)
  | 0x00050000 => ({ retObj with type := .errno, data := k &&& seccompRetData }, .errno)
  | _ => ({ retObj with type := .number, data := k }, .killProc)

namespace Decoder

def returnLine (f : Filter) : Line :=
  let zeroed := Obj.of .archX86
  .return_
    { retObj := if bpfRval f.code = 0x10 then .of .A else (decodeReturnK zeroed f.k).1
      realObj := zeroed }

def miscLine (f : Filter) : Line :=
  if bpfMiscOp f.code = 0x00 then
    .assign { leftVar := .of .X, operator := .equal, rightVar := .of .A }
  else .assign { leftVar := .of .A, operator := .equal, rightVar := .of .X }

end Decoder

def decodeFilter (f : Filter) (statement : Statement) : Option Statement :=
  match (bpfClass f.code).toNat with
  | 0x00 | 0x01 => Decoder.ldLdxLine f statement
  | 0x02 | 0x03 => some { statement with line := Decoder.stStxLine f }
  | 0x04 => (Decoder.aluLine f).map fun line => { statement with line }
  | 0x05 => (Decoder.jumpLine f).map fun line => { statement with line }
  | 0x06 => some { statement with line := Decoder.returnLine f }
  | _ => some { statement with line := Decoder.miscLine f }

def decodeFrom : Nat → List Filter → Option (List Statement)
  | _, [] => some []
  | i, f :: rest =>
      let numbered :=
        { Statement.zero with textNr := (i + 1) % 2 ^ 16, codeNr := (i + 1) % 2 ^ 16 }
      match decodeFilter f numbered, decodeFrom (i + 1) rest with
      | some statement, some later => some (statement :: later)
      | _, _ => none

/-- `decode_filters`: the vector starts with a zeroed element that is skipped; the
flag says that `check_prog` reported normal errors. -/
def decodeFilters (prog : List Filter) (trustful : Bool) :
    Except Message (Option (List Statement) × Bool) :=
  let decoded := (decodeFrom 0 prog).map (Statement.zero :: ·)
  if trustful then .ok (decoded, false)
  else (checkProg prog).map fun error => (decoded, error)

end Ceccomp
