import Ceccomp.Check.CheckProg
import Ceccomp.Text.Parser

/-!
`resolver/resolver.c`: the checks on parsed statements. Statements are numbered
from 1, and so are the masks that jumps leave for them.
-/

namespace Ceccomp

/-- What `report_error` and `error_line` print of a statement. -/
structure ResolveReport where
  textNr : Nat
  column : Option Nat
  message : Message
  line : Text
  deriving DecidableEq, Repr

structure ResolveState where
  masks : Nat → BitVec 16
  memValid : BitVec 16
  reports : List ResolveReport

def ResolveState.start : ResolveState := { masks := fun _ => 0xffff, memValid := 0, reports := [] }

def ResolveState.report (state : ResolveState) (statement : Statement) (message : Message) :
    ResolveState :=
  { state with
    reports := state.reports ++
      [{ textNr := statement.textNr, column := none, message
         line := statement.lineStart.take statement.lineLen }] }

def ResolveState.mergeMask (state : ResolveState) (nr : Nat) : ResolveState :=
  { state with masks := Function.update state.masks nr (state.masks nr &&& state.memValid) }

namespace Resolver

def isOutRange (obj : Obj) (maxIdx : Nat) : Bool := decide (obj.data.toNat > maxIdx)

def isArg (obj : Obj) : Bool := obj.type == .attrLowarg || obj.type == .attrHigharg

/-- What is wrong with loading from `right`, shared by `assign_A` and `assign_X`. -/
def loadError (memValid : BitVec 16) (right : Obj) : Option Message :=
  if isArg right && isOutRange right 5 then some .argsIdxOutOfRange
  else if right.type = .mem then
    if isOutRange right 15 then some .memIdxOutOfRange
    else if memValid &&& bit16 right.data.toNat = 0#16 then some .uninitializedMem
    else none
  else none

def assignA (memValid : BitVec 16) (line : AssignLine) : Option Message :=
  let operator := line.operator
  let right := line.rightVar
  if operator = .negative then
    if right.type ≠ .A then some .rightShouldBeA else none
  else if operator.fromTo .addTo .xorTo then
    if right.type ≠ .X ∧ right.type ≠ .number then some .rightShouldBeXOrNum
    else if operator = .divideTo ∧ right.type = .number ∧ right.data = 0 then some .aluDivByZero
    else if operator.fromTo .lshTo .rshTo ∧ right.type = .number ∧ right.data.toNat ≥ 32 then
      some .aluShOutOfRange
    else none
  else if right.type = .A then some .rightCanNotBeA
  else loadError memValid right

def assignX (memValid : BitVec 16) (line : AssignLine) : Option Message :=
  let right := line.rightVar
  if line.operator ≠ .equal then some .operatorShouldBeEqual
  else if right.type.fromTo .attrSyscall .attrHigharg then some .leftShouldBeA
  else if right.type = .X then some .rightCanNotBeX
  else loadError memValid right

def assignMem (line : AssignLine) : Option Message :=
  if line.operator ≠ .equal then some .operatorShouldBeEqual
  else if isOutRange line.leftVar 15 then some .memIdxOutOfRange
  else if line.rightVar.type ≠ .A ∧ line.rightVar.type ≠ .X then some .rightShouldBeAOrX
  else none

/-- The error of an assignment and `mem_valid` behind it. -/
def assignLine (memValid : BitVec 16) (line : AssignLine) : Option Message × BitVec 16 :=
  match line.leftVar.type with
  | .A => (assignA memValid line, memValid)
  | .X => (assignX memValid line, memValid)
  | .mem =>
      match assignMem line with
      | some message => (some message, memValid)
      | none => (none, memValid ||| bit16 line.leftVar.data.toNat)
  | _ => (none, memValid)

/-- `set_jt_jf`: the 16-bit distance from the statement behind `codeNr` to `nr`. -/
def setJtJf (label : Label) (codeNr nr : Nat) : Label :=
  { label with codeNr := (nr + 2 ^ 32 - codeNr - 1) % 2 ^ 16 }

def isNegative16 (label : Label) : Bool := decide (label.codeNr ≥ 2 ^ 15)

def labelNotFound : Nat := 0xFFFF

def findLabel (table : LabelTable) (label : Label) : Nat := findKey table (label.key.getD [])

def distanceError (label : Label) (mustBePositive tooFar : Message) : Option Message :=
  if isNegative16 label then some mustBePositive
  else if label.codeNr > 0xff then some tooFar
  else none

/-- `jump_line` without a condition: `target` is the number of the label, `jt` its distance. -/
def jaLine (bpfLen target : Nat) (jt : Label) (line : JumpLine) :
    JumpLine × Except Message (List Nat) :=
  if target = labelNotFound then (line, .error .cannotFindLabel)
  else if target > bpfLen then (line, .error .jaOutOfFilters)
  else if isNegative16 jt then ({ line with jt }, .error .jaMustBePositive)
  else ({ line with jt }, .ok [target])

/-- The number `jf` stands for; without an `else` it is the next one. -/
def jfTarget (table : LabelTable) (codeNr : Nat) (line : JumpLine) : Nat :=
  if line.jf.key.isNone then codeNr + 1 else findLabel table line.jf

def jfLine (bpfLen codeNr target other : Nat) (jf : Label) (line : JumpLine) :
    JumpLine × Except Message (List Nat) :=
  if line.jf.key.isSome ∧ other = labelNotFound then (line, .error .cannotFindLabel)
  else
    match distanceError jf .jfMustBePositive .jfTooFar with
    | some message => ({ line with jf }, .error message)
    | none =>
        if codeNr + jf.codeNr + 1 > bpfLen then ({ line with jf }, .error .jfInvalidTag)
        else ({ line with jf }, .ok [target, codeNr + jf.codeNr + 1])

def jtLine (table : LabelTable) (bpfLen codeNr target : Nat) (jt : Label) (line : JumpLine) :
    JumpLine × Except Message (List Nat) :=
  if target = labelNotFound then (line, .error .cannotFindLabel)
  else
    match distanceError jt .jtMustBePositive .jtTooFar with
    | some message => ({ line with jt }, .error message)
    | none =>
        if target > bpfLen then ({ line with jt }, .error .jtInvalidTag)
        else
          jfLine bpfLen codeNr target (jfTarget table codeNr line)
            (setJtJf line.jf codeNr (jfTarget table codeNr line)) { line with jt }

/-- `jump_line`: the jump with its distances, and the error or the two numbers whose
masks it merges into. -/
def jumpLine (table : LabelTable) (bpfLen codeNr : Nat) (line : JumpLine) :
    JumpLine × Except Message (List Nat) :=
  let target := findLabel table line.jt
  let jt := setJtJf line.jt codeNr target
  if !line.ifCondition then jaLine bpfLen target jt line
  else jtLine table bpfLen codeNr target jt line

def returnLine (line : ReturnLine) : Option Message :=
  let type := line.retObj.type
  if type = .A ∨ type = .number then none
  else if (type = .trace ∨ type = .trap ∨ type = .errno) ∧ line.retObj.data.toNat > 0xffff then
    some .retDataOverflow
  else none

def errorReport (statement : Statement) (line : ErrorLine) : ResolveReport :=
  { textNr := statement.textNr
    column := some (statement.lineStart.length - line.errorStart.length + 1)
    message := line.errorMsg
    line := statement.lineStart.take statement.lineLen }

end Resolver

/-- `resolve_statement`; no other kind of line is handed to it. -/
def resolveStatement (table : LabelTable) (bpfLen : Nat) (statement : Statement)
    (state : ResolveState) : Statement × ResolveState :=
  match statement.line with
  | .error line =>
      (statement, { state with reports := state.reports ++ [Resolver.errorReport statement line] })
  | .assign line =>
      match Resolver.assignLine state.memValid line with
      | (some message, _) => (statement, state.report statement message)
      | (none, memValid) => (statement, { state with memValid })
  | .jump line =>
      let (resolved, outcome) := Resolver.jumpLine table bpfLen statement.codeNr line
      let statement := { statement with line := .jump resolved }
      match outcome with
      | .error message => (statement, state.report statement message)
      | .ok targets =>
          (statement, { targets.foldl ResolveState.mergeMask state with memValid := 0xffff })
  | .return_ line =>
      match Resolver.returnLine line with
      | some message => (statement, state.report statement message)
      | none => (statement, state)
  | .empty | .eof => (statement, state)

def resolveFrom (table : LabelTable) (bpfLen : Nat) :
    Nat → List Statement → ResolveState → List Statement × ResolveState
  | _, [], state => ([], state)
  | nr, statement :: rest, state =>
      let (resolved, state) := resolveStatement table bpfLen statement
        { state with memValid := state.memValid &&& state.masks nr }
      let (later, state) := resolveFrom table bpfLen (nr + 1) rest state
      (resolved :: later, state)

/-- `resolver` on the statements of `code_ptr_v`: what becomes of them and what is
reported, or the message of `error`, which ends the program. -/
def resolver (table : LabelTable) (code : List Statement) :
    Except Message (List Statement × List ResolveReport) :=
  let bpfLen := code.length % 2 ^ 16
  if bpfLen = 0 then .error .noValidCode
  else
    let (resolved, state) := resolveFrom table bpfLen 1 code .start
    match resolved.getLast? with
    | none => .ok (resolved, state.reports)
    | some last =>
        match last.line with
        | .return_ _ => .ok (resolved, state.reports)
        | _ => .ok (resolved, (state.report last .mustEndWithRet).reports)

/-- The resolver writes through the pointers of `code_ptr_v`: the non-empty statements
of `text_v`, in order, become the given ones. -/
def scatter : List Statement → List Statement → List Statement
  | [], _ => []
  | statement :: rest, code =>
      if statement.line = .empty then statement :: scatter rest code
      else
        match code with
        | [] => statement :: scatter rest []
        | first :: later => first :: scatter rest later

end Ceccomp
