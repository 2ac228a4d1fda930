import Ceccomp.Text.Scanner

/-!
`lexical/parser.c`. Parse actions move along the tokens; `longjmp` is an error of
the action, raised once `error_at` has skipped to the end of the line. The label
table is the list of its entries (`utils/hash.c`).
-/

namespace Ceccomp

/-- `previous`, `current` and `next` of `parse_t`, and the scanner behind them. -/
structure Tokens where
  previous : Token
  current : Token
  next : Token
  scanner : Scanner
  deriving DecidableEq, Repr

/-- Why an action gave up: `error_at`, with what `local->comment` held then, or `error`, which
ends the program. -/
inductive ParseStop where
  | raised (errorStart : Text) (errorMsg : Message) (comment : Option Nat)
  | exit (message : Message)
  deriving DecidableEq, Repr

abbrev Parse := EStateM ParseStop Tokens

abbrev LabelTable := List (Text × Nat)

/-- `find_key`; (uint16_t)-1 when there is no such key. -/
def findKey (table : LabelTable) (key : Text) : Nat :=
  match table.find? (fun entry => entry.1 = key) with
  | some entry => entry.2
  | none => 0xFFFF

/-- `insert_key`: whether the key was there already, and the table. -/
def insertKey (table : LabelTable) (key : Text) (lineNr : Nat) : Bool × LabelTable :=
  if (table.find? (fun entry => entry.1 = key)).isSome then (true, table)
  else (false, table ++ [(key, lineNr)])

def Tokens.advance (tokens : Tokens) : Tokens :=
  let scanned := scanToken tokens.scanner
  { previous := tokens.current, current := tokens.next, next := scanned.1, scanner := scanned.2 }

/-- `while (!(match (EOL) || peek (TOKEN_EOF))) advance ();`, each turn of which
consumes at least one character of the line. -/
def Tokens.sync : Nat → Tokens → Tokens
  | 0, tokens => tokens
  | fuel + 1, tokens =>
      if tokens.next.type = .eol then tokens.advance
      else if tokens.next.type = .tokenEof then tokens
      else Tokens.sync fuel tokens.advance

/-- More turns than the line has tokens. -/
def Tokens.syncFuel (tokens : Tokens) : Nat :=
  match tokens.scanner.rest with
  | some rest => rest.length + 2
  | none => 2

namespace Parser

def advance : Parse Unit := modify Tokens.advance

def peek (expected : TokenType) : Parse Bool := do
  return (← get).next.type == expected

def match_ (expected : TokenType) : Parse Bool := do
  if !(← peek expected) then return false
  advance
  return true

def matchFromTo (expectedStart expectedEnd : TokenType) : Parse Bool := do
  if !(← get).next.type.fromTo expectedStart expectedEnd then return false
  advance
  return true

def raiseAt {α : Type} (token : Token) (errorMsg : Message) (comment : Option Nat) : Parse α := do
  modify fun tokens => tokens.sync tokens.syncFuel
  throw (.raised token.start errorMsg comment)

/-- `error_at` while `local->comment` is still the 0 of `memset`. -/
def errorAt {α : Type} (token : Token) (errorMsg : Message) : Parse α :=
  raiseAt token errorMsg (some 0)

def errorNext {α : Type} (errorMsg : Message) : Parse α := do
  errorAt (← get).next errorMsg

def errorCurrent {α : Type} (errorMsg : Message) : Parse α := do
  errorAt (← get).current errorMsg

def matchNumber : Parse Bool := do
  if ← match_ .number then return true
  if ← peek .overflowNumber then errorNext .numberOverflow
  return false

def parenNum : Parse Word := do
  if !(← match_ .leftParen) then return 0
  if !(← matchNumber) then errorNext .expectNumber
  if !(← match_ .rightParen) then errorNext .expectParen
  return (← get).previous.data

def bracketNum : Parse Word := do
  if !(← match_ .leftBracket) then errorNext .expectBracket
  if !(← matchNumber) then errorNext .expectNumber
  if !(← match_ .rightBracket) then errorNext .expectBracket
  return (← get).previous.data

def literalFrom (start : Text) : Parse Text := do
  let current := (← get).current
  return start.take (start.length - current.start.length + current.len)

def returnLine : Parse Line := do
  let start := (← get).next.start
  let mut obj : Obj := .of .archX86
  if ← matchFromTo .trace .errno then
    let type := (← get).current.type
    obj := { obj with type, data := ← parenNum }
  else if ← matchNumber then
    obj := { obj with type := .number, data := (← get).current.data }
  else if ← (do if ← matchFromTo .killProc .log then return true else match_ .A) then
    obj := { obj with type := (← get).current.type }
  else errorNext .expectReturnVal
  let literal ← literalFrom start
  return .return_ { retObj := { obj with literal := some literal }, realObj := .of .archX86 }

/-- `label`: the key of a jump target, to be resolved later. -/
def label : Parse Label := do
  if !(← match_ .identifier) then errorNext .expectLabel
  return { key := some (← get).current.text, codeNr := 0 }

def compareObj (lib : Libseccomp) (localArch : Word) : Parse (Obj × CmpType) := do
  let first := (← get).next
  let literal := some first.text
  if ← match_ .X then return ({ type := .X, data := 0, literal }, .number)
  if ← matchNumber then
    return ({ type := .number, data := (← get).current.data, literal }, .number)
  if ← match_ .identifier then
    let data := lib.resolveNameArch localArch (← get).current.text
    if data = 0xFFFFFFFF then errorCurrent .expectSyscall
    return ({ type := .number, data, literal }, .syscall)
  if !(← matchFromTo .archX86 .archSh) then errorNext .unexpectToken
  if !(← match_ .dot) then
    let data := internalArchToScmpArch (← get).current.type
    if data = 0xFFFFFFFF then errorCurrent .expectArch
    return ({ type := .number, data, literal }, .arch)
  if !(← peek .identifier) then errorNext .expectSyscall
  let scmpArch := internalArchToScmpArch (← get).previous.type
  if scmpArch = 0xFFFFFFFF then
    errorAt (← get).previous .expectArch
  let name := (← get).next
  let data := lib.resolveNameArch scmpArch name.text
  if data = 0xFFFFFFFF then errorNext .expectSyscall
  advance
  return ({ type := .number, data, literal := some (first.start.take (first.len + name.len + 1)) },
    .archSyscall)

def condition (lib : Libseccomp) (localArch : Word) : Parse JumpLine := do
  let ifBang ← match_ .bang
  if !(← match_ .leftParen) then errorNext .expectParen
  if !(← match_ .A) then errorNext .expectA
  if !(← matchFromTo .equalEqual .and) then errorNext .expectCompartor
  let comparator := (← get).current.type
  let (cmpobj, cmptype) ← compareObj lib localArch
  if !(← match_ .rightParen) then errorNext .expectParen
  return { ifBang, ifCondition := true, cmptype, comparator, cmpobj, jt := .zero, jf := .zero }

def jaLine : Parse Line := do
  let jt ← label
  return .jump
    { ifBang := false, ifCondition := false, cmptype := .number, comparator := .archX86
      cmpobj := .of .archX86, jt, jf := .zero }

def jumpLine (lib : Libseccomp) (localArch : Word) : Parse Line := do
  let line ← condition lib localArch
  if !(← match_ .goto) then errorNext .expectGoto
  let line := { line with jt := ← label }
  if !(← match_ .comma) then return .jump line
  if !(← match_ .else_) then errorNext .expectElse
  if !(← match_ .goto) then errorNext .expectGoto
  return .jump { line with jf := ← label }

/-- `left`: the current token is `$A`, `$X` or `$mem` already. -/
def left : Parse Obj := do
  let current := (← get).current
  let data ← if current.type = .mem then bracketNum else pure 0
  let literal ← literalFrom current.start
  return { type := current.type, data, literal := some literal }

def right : Parse Obj := do
  let start := (← get).next.start
  let mut obj : Obj := .of .archX86
  if ← (do if ← match_ .A then return true
           if ← match_ .X then return true
           matchFromTo .attrLen .attrHighpc) then
    obj := { obj with type := (← get).current.type }
  else if ← (do if ← match_ .mem then return true
                if ← match_ .attrLowarg then return true
                match_ .attrHigharg) then
    let type := (← get).current.type
    obj := { obj with type, data := ← bracketNum }
  else if ← matchNumber then
    obj := { obj with type := .number, data := (← get).current.data }
  else errorNext .expectRightVar
  let literal ← literalFrom start
  return { obj with literal := some literal }

/-- The operator of `assign_line`; NEGATIVE overwrites EQUAL when it follows. -/
def operator : Parse TokenType := do
  if ← matchFromTo .addTo .xorTo then return (← get).current.type
  if !(← match_ .equal) then errorNext .expectOperator
  let _ ← match_ .negative
  return (← get).current.type

def assignLine : Parse Line := do
  let leftVar ← left
  let operator ← operator
  let rightVar ← right
  return .assign { leftVar, operator, rightVar }

/-- The statement itself, by what the next token is. -/
def line (lib : Libseccomp) (localArch : Word) (codeNr : Nat) : Parse Line := do
  if ← (do if ← peek .eol then return true else peek .comment) then return .empty
  else if ← peek .tokenEof then return .eof
  else if codeNr > bpfMaxInsns then throw (.exit .statementOverflow)
  else if ← match_ .return_ then returnLine
  else if ← match_ .if_ then jumpLine lib localArch
  else if ← match_ .goto then jaLine
  else if ← matchFromTo .A .mem then assignLine
  else errorNext .unexpectToken

/-- The token at which the line ends; by then `local->comment` is set, to -1 where there is none. -/
def lineEnd (comment : Option Nat) : Parse Token := do
  if ← match_ .eol then return (← get).current
  if ← peek .tokenEof then return (← get).next
  raiseAt (← get).next .unexpectToken comment

def expression (lib : Libseccomp) (localArch : Word) (local_ : Statement) : Parse Statement := do
  let line ← line lib localArch local_.codeNr
  let offset (token : Token) : Nat := local_.lineStart.length - token.start.length
  let comment ←
    if ← match_ .comment then pure (some (offset (← get).current)) else pure none
  let ending ← lineEnd comment
  return { local_ with line, comment, lineLen := offset ending % 2 ^ 16 }

def skipColumns : Nat → Parse Unit
  | 0 => do
      let _ ← matchNumber
      return ()
  | left + 1 => do
      if ← matchNumber then skipColumns left

end Parser

/-- `parse_t` with the label table. -/
structure ParseState where
  textNr : Nat
  codeNr : Nat
  tokens : Tokens
  table : LabelTable

def errorStatement (local_ : Statement) (errorStart : Text) (errorMsg : Message)
    (comment : Option Nat) (tokens : Tokens) : Statement :=
  { local_ with
    line := .error { errorStart, errorMsg }
    comment
    lineLen := (local_.lineStart.length - tokens.current.start.length) % 2 ^ 16 }

def runLine (action : Parse Statement) (local_ : Statement) (tokens : Tokens) :
    Except Message (Statement × Tokens) :=
  match action tokens with
  | .ok statement after => .ok (statement, after)
  | .error (.raised errorStart errorMsg comment) after =>
      .ok (errorStatement local_ errorStart errorMsg comment after, after)
  | .error (.exit message) _ => .error message

/-- `parse_line`, with `label_decl` and the numbering of empty lines. -/
def parseLine (lib : Libseccomp) (localArch : Word) (state : ParseState) :
    Except Message (Statement × ParseState) :=
  let textNr := (state.textNr + 1) % 2 ^ 16
  let codeNr := (state.codeNr + 1) % 2 ^ 16
  let local_ : Statement :=
    { Statement.zero with textNr, codeNr, lineStart := state.tokens.next.start }
  let finish (table : LabelTable) (done : Except Message (Statement × Tokens)) :
      Except Message (Statement × ParseState) :=
    done.map fun (statement, tokens) =>
      -- an empty line gives its number back
      let codeNr := if statement.line = .empty then (codeNr + 2 ^ 16 - 1) % 2 ^ 16 else codeNr
      (statement, { textNr, codeNr, tokens, table })
  if state.tokens.next.type = .labelDecl then
    let tokens := state.tokens.advance
    let key := tokens.current.start.take (tokens.current.len - 1)
    let labelled := { local_ with labelDecl := some key }
    let (duplicate, table) := insertKey state.table key codeNr
    if duplicate then
      finish table (runLine (Parser.errorCurrent .duplicatedLabel) labelled tokens)
    else
      finish table
        (runLine (do Parser.skipColumns 4; Parser.expression lib localArch labelled) labelled tokens)
  else finish state.table (runLine (Parser.expression lib localArch local_) local_ state.tokens)

/-- The loop of `parser`. -/
def parseLines (lib : Libseccomp) (localArch : Word) :
    Nat → ParseState → Option (Except Message (List Statement × ParseState))
  | 0, _ => none
  | fuel + 1, state =>
      match parseLine lib localArch state with
      | .error message => some (.error message)
      | .ok (statement, state) =>
          if statement.line = .eof then some (.ok ([], state))
          else
            (parseLines lib localArch fuel state).map fun done =>
              done.map fun (later, last) => (statement :: later, last)

/-- Static storage is zeroed before the first `advance`. -/
def zeroToken : Token := { type := .archX86, start := [], len := 0, lineNr := 0, data := 0 }

def initParser (scanner : Scanner) : Tokens :=
  Tokens.advance { previous := zeroToken, current := zeroToken, next := zeroToken, scanner }

/-- What `parser` leaves behind: `text_v` without its zeroed first element, and the
label table. -/
structure Parsed where
  text : List Statement
  table : LabelTable

/-- `parser`; a line more than there are is enough turns for its loop. -/
def parser (lib : Libseccomp) (localArch : Word) (lines : List Text) :
    Option (Except Message Parsed) :=
  (parseLines lib localArch (lines.length + 2)
    { textNr := 0, codeNr := 0, tokens := initParser (initScanner lines), table := [] }).map
    fun done => done.map fun (text, state) => { text, table := state.table }

/-- The statements `code_ptr_v` points to, without its zeroed first element. -/
def codePtrs (text : List Statement) : List Statement :=
  text.filter fun statement => statement.line ≠ .empty

end Ceccomp
