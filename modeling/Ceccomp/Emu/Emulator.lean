import Ceccomp.Lib.Machine
import Ceccomp.Disasm.Formatter
import Ceccomp.Disasm.Decoder
import Ceccomp.Text.Resolver

/-!
`emu.c` in quiet mode, in which `emulate_printer` prints nothing. The interpreter walks
`text_v` line by line, writing through pointers into its static variables and into the
statements. A failing assertion, or an index outside an array, is `none` or `failed`.
-/

namespace Ceccomp

inductive Cell where
  | A | X
  | mem (idx : Nat)
  | dataLen | syscallNr | scmpArch | lowPc | highPc
  | lowArgs (idx : Nat)
  | highArgs (idx : Nat)
  deriving DecidableEq, Repr

abbrev EmuVars := Cell → Word

/-- What the variables hold when the program starts. -/
def EmuVars.static : EmuVars := fun cell => if cell = .dataLen then seccompDataLen else 0

namespace Emu

open Machine (Next)

/-- `vars`: where the variable of a token is, or its first element. -/
def varCell : TokenType → Option Cell
  | .A => some .A
  | .X => some .X
  | .mem => some (.mem 0)
  | .attrLen => some .dataLen
  | .attrSyscall => some .syscallNr
  | .attrArch => some .scmpArch
  | .attrLowpc => some .lowPc
  | .attrHighpc => some .highPc
  | .attrLowarg => some (.lowArgs 0)
  | .attrHigharg => some (.highArgs 0)
  | _ => none

/-- `pointer += count` inside the array the pointer stands at the start of. -/
def advancePtr (cell : Cell) (count : Nat) : Option Cell :=
  match cell with
  | .mem idx => if idx + count < bpfMemWords then some (.mem (idx + count)) else none
  | .lowArgs idx => if idx + count < 6 then some (.lowArgs (idx + count)) else none
  | .highArgs idx => if idx + count < 6 then some (.highArgs (idx + count)) else none
  | cell => if count = 0 then some cell else none

/-- What `right` points to: a variable or the number in the statement itself. -/
inductive RightPtr where
  | var (cell : Cell)
  | number
  deriving DecidableEq, Repr

def indexed (type : TokenType) : Bool :=
  type == .attrLowarg || type == .attrHigharg || type == .mem

def rightPtr (line : AssignLine) : Option RightPtr :=
  let type := line.rightVar.type
  if type = .number then some .number
  else
    (varCell type).bind fun cell =>
      if indexed type then (advancePtr cell line.rightVar.data.toNat).map .var
      else some (.var cell)

/-- The index of a left `$mem` counts only when the right value is not indexed. -/
def leftPtr (line : AssignLine) : Option Cell :=
  (varCell line.leftVar.type).bind fun cell =>
    if indexed line.rightVar.type then some cell
    else if line.leftVar.type = .mem then advancePtr cell line.leftVar.data.toNat
    else some cell

def readRight (right : RightPtr) (line : AssignLine) (vars : EmuVars) : Word :=
  match right with
  | .var cell => vars cell
  | .number => line.rightVar.data

def writeRight (right : RightPtr) (value : Word) (line : AssignLine) (vars : EmuVars) :
    AssignLine × EmuVars :=
  match right with
  | .var cell => (line, Function.update vars cell value)
  | .number => ({ line with rightVar := { line.rightVar with data := value } }, vars)

/-- `assign_line`: whether it was interrupted, the statement and the variables. -/
def assignLine (line : AssignLine) (vars : EmuVars) : Option (Bool × AssignLine × EmuVars) :=
  match leftPtr line, rightPtr line with
  | some left, some right =>
      let value := readRight right line vars
      let operate (result : Word) := some (false, line, Function.update vars left result)
      -- the shift amount is cut to five bits where it is stored
      let shift (op : Word → Nat → Word) :=
        let (line, vars) := writeRight right (value &&& 0x1f) line vars
        some (false, line,
          Function.update vars left (op (vars left) (readRight right line vars).toNat))
      match line.operator with
      | .addTo => operate (vars left + value)
      | .subTo => operate (vars left - value)
      | .multiTo => operate (vars left * value)
      | .divideTo => if value ≠ 0 then operate (vars left / value) else some (true, line, vars)
      | .lshTo => shift (· <<< ·)
      | .rshTo => shift (· >>> ·)
      | .andTo => operate (vars left &&& value)
      | .orTo => operate (vars left ||| value)
      | .xorTo => operate (vars left ^^^ value)
      | .equal => operate value
      | .negative => operate (-value)
      | _ => none
  | _, _ => none

def doCompare (comparator : TokenType) (a right : Word) : Option Bool :=
  match comparator with
  | .equalEqual => some (a == right)
  | .bangEqual => some (a != right)
  | .greaterEqual => some (decide (right.toNat ≤ a.toNat))
  | .greaterThan => some (decide (right.toNat < a.toNat))
  | .lessEqual => some (decide (a.toNat ≤ right.toNat))
  | .lessThan => some (decide (a.toNat < right.toNat))
  | .and => some (a &&& right != 0)
  | _ => none

def jumpLine (line : JumpLine) (vars : EmuVars) : Option Label :=
  if !line.ifCondition then some line.jt
  else
    let right := if line.cmpobj.type = .X then vars .X else line.cmpobj.data
    (doCompare line.comparator (vars .A) right).map fun holds =>
      if line.ifBang ^^ holds then line.jt else line.jf

def returnLine (line : ReturnLine) (vars : EmuVars) : ReturnLine :=
  let ret := line.retObj
  let resolved (value : Word) : Obj :=
    let (obj, type) := decodeReturnK line.realObj value
    { obj with type }
  if ret.type = .A then { line with realObj := resolved (vars .A) }
  else if ret.type = .number then { line with realObj := resolved ret.data }
  else { line with realObj := { line.realObj with type := ret.type, data := ret.data } }

/-- The walk back from line `textNr` to the declaration of the label, as far as the
line behind the jump. -/
def findDecl (text : List Statement) (key : Text) (cur : Nat) : Nat → Option Nat
  | 0 => if cur = 0 then none else some 0
  | textNr + 1 =>
      if cur < textNr + 1 then
        match text[textNr]? with
        | none => none
        | some statement =>
            if statement.labelDecl = some key then some (textNr + 1)
            else findDecl text key cur textNr
      else if textNr + 1 = cur then none
      else some (textNr + 1)

/-- `code_nr_to_text_nr`; `text` is `text_v` without its zeroed first element. -/
def codeNrToTextNr (text : List Statement) (cur : Statement) (jmp : Label) : Option Nat :=
  match jmp.key.getD [] with
  | [] => some (cur.textNr + 1)
  | key =>
      match (codePtrs text)[cur.codeNr + jmp.codeNr]? with
      | none => none
      | some target => findDecl text key cur.textNr target.textNr

/-- The variables and the indices of `emulator`; `text` changes through the pointers. -/
structure EmuState where
  readIdx : Nat
  execIdx : Nat
  vars : EmuVars
  text : List Statement

inductive EmuEnd where
  | out (statement : Statement) (state : EmuState)
  | failed

def EmuState.begin (text : List Statement) (vars : EmuVars) : EmuState :=
  { readIdx := 1, execIdx := 1, vars, text }

def leave (statement : Option Statement) (state : EmuState) : EmuEnd :=
  match statement with
  | none => .failed
  | some statement =>
      match statement.line with
      | .return_ _ | .assign _ => .out statement state
      | _ => .failed

/-- One turn of the loop of `emulator`, or what comes behind it. -/
def emulatorStep (state : EmuState) : Next EmuState EmuEnd :=
  if state.readIdx < state.text.length + 1 then
    match state.text[state.readIdx - 1]? with
    | none => .stop .failed
    | some statement =>
        let next := { state with readIdx := state.readIdx + 1 }
        if state.readIdx < state.execIdx then .go next
        else
          let write (line : Line) : Statement × List Statement :=
            let statement := { statement with line }
            (statement, state.text.set (state.readIdx - 1) statement)
          let next := { next with execIdx := state.execIdx + 1 }
          match statement.line with
          | .assign line =>
              match assignLine line state.vars with
              | none => .stop .failed
              | some (interrupted, line, vars) =>
                  let (statement, text) := write (.assign line)
                  if interrupted then .stop (leave (some statement) { state with vars, text })
                  else .go { next with vars, text }
          | .jump line =>
              match jumpLine line state.vars with
              | none => .stop .failed
              | some label =>
                  match codeNrToTextNr state.text statement label with
                  | none => .stop .failed
                  | some execIdx => .go { next with execIdx }
          | .return_ line =>
              let (statement, text) := write (.return_ (returnLine line state.vars))
              .stop (leave (some statement) { state with text })
          | .empty => .go next
          | .eof | .error _ => .stop .failed
  else .stop (leave state.text.getLast? state)

/-- `emulator`; each turn reads another line. -/
def emulator (text : List Statement) (vars : EmuVars) : Option EmuEnd :=
  Machine.result emulatorStep (text.length + 1) (.begin text vars)

end Emu

end Ceccomp
