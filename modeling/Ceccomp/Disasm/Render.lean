import Ceccomp.Disasm.Decoded
import Ceccomp.Text.Arch

/-!
`resolver/render.c`: what the registers and the scratch memory are known to hold
is handed from each statement to the ones it leads to, and operands compared with
the architecture or the system call number are replaced by names.
-/

namespace Ceccomp

/-- `stat_t` -/
inductive Stat where
  | none | arch | sysnr | mixed
  deriving DecidableEq, Repr

/-- `stat_ctx_t`; `arch` is 0 (`NONE`) or 3 (`MIXED`) when it is no architecture. -/
structure StatCtx where
  aStat : Stat
  xStat : Stat
  memStat : Nat → Stat
  arch : Word

abbrev StatList := Nat → StatCtx

def StatCtx.zero : StatCtx :=
  { aStat := .none, xStat := .none, memStat := fun _ => .none, arch := 0 }

def archNone : Word := 0
def archMixed : Word := 3

def setStat (dest src : Stat) (force : Bool) : Stat :=
  if force ∨ dest = .none then src
  else if dest ≠ src then .mixed
  else dest

def mergeArch (dest src : Word) : Word :=
  if dest = archNone then src
  else if dest ≠ src then archMixed
  else dest

def setArch (list : StatList) (destIdx : Nat) (src : Word) : StatList :=
  Function.update list destIdx { list destIdx with arch := mergeArch (list destIdx).arch src }

def setCtx (list : StatList) (destIdx srcIdx : Nat) (force : Bool) : StatList :=
  Function.update list destIdx
    { list destIdx with
      aStat := setStat (list destIdx).aStat (list srcIdx).aStat force
      xStat := setStat (list destIdx).xStat (list srcIdx).xStat force
      memStat := fun slot =>
        setStat ((list destIdx).memStat slot) ((list srcIdx).memStat slot) force }

namespace Render

def rightStat (line : AssignLine) (ctx : StatCtx) : Stat :=
  if line.operator ≠ .equal then .mixed
  else
    match line.rightVar.type with
    | .attrSyscall => .sysnr
    | .attrArch => .arch
    | .A => ctx.aStat
    | .X => ctx.xStat
    | .mem => ctx.memStat line.rightVar.data.toNat
    | _ => .mixed

/-- `assign_line`; `none` is the assertion on the left value. -/
def assignLine (line : AssignLine) (ctx : StatCtx) : Option StatCtx :=
  let stat := rightStat line ctx
  match line.leftVar.type with
  | .A => some { ctx with aStat := setStat ctx.aStat stat true }
  | .X => some { ctx with xStat := setStat ctx.xStat stat true }
  | .mem =>
      let slot := line.leftVar.data.toNat
      some { ctx with
        memStat := Function.update ctx.memStat slot (setStat (ctx.memStat slot) stat true) }
  | _ => none

def tryResolveArch (cmpobj : Obj) : Obj :=
  match scmpArchToInternalStr cmpobj.data with
  | none => cmpobj
  | some archStr => { cmpobj with type := .identifier, literal := some archStr }

/-- `persist_object`: the text and the bytes the pile has left. -/
def persistObject (sysname : Text) (arch : Option Text) (pile : Nat) : Option (Text × Nat) :=
  let text :=
    match arch with
    | some arch => arch ++ '.' :: sysname
    | none => sysname
  if text.length ≤ pile then some (text, pile - text.length) else none

def tryResolveSysnr (lib : Libseccomp) (defaultArch curArch : Word) (pile : Nat) (cmpobj : Obj) :
    Option (Obj × Nat) :=
  if curArch = archNone then some (cmpobj, pile)
  else
    match lib.resolveNumArch curArch cmpobj.data with
    | none => some (cmpobj, pile)
    | some sysName =>
        let archStr :=
          if curArch ≠ defaultArch then scmpArchToInternalStr curArch else none
        (persistObject sysName archStr pile).map fun (literal, pile) =>
          ({ cmpobj with type := .identifier, literal := some literal }, pile)

def trackJump (line : JumpLine) (pc : Nat) (list : StatList) : StatList :=
  if !line.ifCondition then
    let jt := pc + line.jt.codeNr + 1
    let handed := setCtx list jt pc false
    setArch handed jt (handed pc).arch
  else
    let absJt := pc + line.jt.codeNr + 1
    let absJf := pc + line.jf.codeNr + 1
    let handed := setCtx (setCtx list absJt pc false) absJf pc false
    if (handed pc).aStat ≠ .arch then
      let once := setArch handed absJt (handed pc).arch
      setArch once absJf (once pc).arch
    else if line.comparator = .equalEqual ∨ line.comparator = .bangEqual then
      let equal := line.comparator = .equalEqual
      setArch (setArch handed (if equal then absJt else absJf) line.cmpobj.data)
        (if equal then absJf else absJt) archMixed
    else handed

/-- The operand after `jump_line`, which looks at the context of the jump itself. -/
def resolveOperand (lib : Libseccomp) (defaultArch : Word) (ctx : StatCtx) (pile : Nat)
    (line : JumpLine) : Option (JumpLine × Nat) :=
  if !line.ifCondition then some (line, pile)
  else if ctx.aStat = .arch then some ({ line with cmpobj := tryResolveArch line.cmpobj }, pile)
  else if ctx.aStat = .sysnr then
    (tryResolveSysnr lib defaultArch ctx.arch pile line.cmpobj).map fun (cmpobj, pile) =>
      ({ line with cmpobj }, pile)
  else some (line, pile)

end Render

structure RenderState where
  list : StatList
  pile : Nat

def renderStatement (lib : Libseccomp) (defaultArch : Word) (statement : Statement)
    (state : RenderState) : Option (Statement × RenderState) :=
  let pc := statement.codeNr
  match statement.line with
  | .assign line =>
      (Render.assignLine line (state.list pc)).map fun ctx =>
        let changed := Function.update state.list pc ctx
        let handed := setCtx changed (pc + 1) pc false
        (statement, { state with list := setArch handed (pc + 1) (handed pc).arch })
  | .jump line =>
      let list := Render.trackJump line pc state.list
      (Render.resolveOperand lib defaultArch (list pc) state.pile line).map fun (line, pile) =>
        ({ statement with line := .jump line }, { list, pile })
  | .return_ _ => some (statement, state)
  | _ => none

def renderFrom (lib : Libseccomp) (defaultArch : Word) :
    List Statement → RenderState → Option (List Statement × RenderState)
  | [], state => some ([], state)
  | statement :: rest, state =>
      match renderStatement lib defaultArch statement state with
      | none => none
      | some (shown, state) =>
          (renderFrom lib defaultArch rest state).map fun (later, state) => (shown :: later, state)

def startList (scmpArch : Word) : StatList :=
  Function.update (fun _ => StatCtx.zero) 1 { StatCtx.zero with arch := scmpArch }

/-- `render` over the statements behind the first, which it skips. -/
def render (lib : Libseccomp) (scmpArch : Word) (pile : Nat) (statements : List Statement) :
    Option (List Statement) :=
  (renderFrom lib scmpArch statements { list := startList scmpArch, pile }).map Prod.fst

def renderBefore (lib : Libseccomp) (scmpArch : Word) (pile : Nat) (statements : List Statement)
    (n : Nat) : Option RenderState :=
  (renderFrom lib scmpArch (statements.take n) { list := startList scmpArch, pile }).map Prod.snd

end Ceccomp
