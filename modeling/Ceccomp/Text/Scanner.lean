import Ceccomp.Text.Arch

/-!
`lexical/scanner.c`. The scanner stands somewhere in the current line; what is
left of the line, without its line break, is all it can look at. An empty rest
means that it stands at the line break.
-/

namespace Ceccomp

/-- `token_t`; `start` is the rest of the line from the token on. -/
structure Token where
  type : TokenType
  start : Text
  len : Nat
  lineNr : Nat
  data : Word
  deriving DecidableEq, Repr

/-- The characters of the token. -/
def Token.text (token : Token) : Text := token.start.take token.len

/-- `scanner_t` with `unknown_count` and the lines `next_line` has yet to return.
`rest` is `none` when `token_start` is `NULL`. -/
structure Scanner where
  rest : Option Text
  lines : List Text
  lineNr : Nat
  unknownCount : Nat
  deriving DecidableEq, Repr

def initScanner (lines : List Text) : Scanner :=
  { rest := lines.head?, lines := lines.tail, lineNr := 1, unknownCount := 0 }

/-- `isspace` in the C locale; the line break is not part of the text. -/
def isSpace (c : Char) : Bool :=
  c == ' ' || c == '\t' || c == '\x0b' || c == '\x0c' || c == '\r'

def isIdentifier (c : Char) : Bool := c.isAlphanum || c == '_'

def peekAt (text : Text) (offset : Nat) : Char := text.getD offset '\n'

def matchToken (text : Text) (type : TokenType) : Bool :=
  type.spelling.isPrefixOf text && !isIdentifier (peekAt text type.spelling.length)

/-- `match_token_range` over the tokens of the range, in the order of the enumeration. -/
def matchTokenRange (range : List TokenType) (text : Text) : Option (TokenType × Nat) :=
  (range.find? (matchToken text)).map fun type => (type, type.spelling.length)

def keywords : List TokenType := [.return_, .if_, .goto, .else_]

def actions : List TokenType :=
  [.killProc, .kill, .allow, .notify, .log, .trace, .trap, .errno]

def variableTokens : List TokenType :=
  [.mem, .attrLen, .attrSyscall, .attrArch, .attrLowpc, .attrHighpc, .attrLowarg, .attrHigharg]

def scanArch (text : Text) : Option (TokenType × Nat) :=
  let arch := strToInternalArch text
  if arch ≠ .unknown ∧ !isIdentifier (peekAt text arch.spelling.length) then
    some (arch, arch.spelling.length)
  else none

def scanPunct (text : Text) : Option (TokenType × Nat) :=
  match peekAt text 0, peekAt text 1, peekAt text 2 with
  | '$', 'A', _ => some (.A, 2)
  | '$', 'X', _ => some (.X, 2)
  | '$', _, _ => matchTokenRange variableTokens text
  | ',', _, _ => some (.comma, 1)
  | '.', _, _ => some (.dot, 1)
  | '[', _, _ => some (.leftBracket, 1)
  | ']', _, _ => some (.rightBracket, 1)
  | '(', _, _ => some (.leftParen, 1)
  | ')', _, _ => some (.rightParen, 1)
  | '+', '=', _ => some (.addTo, 2)
  | '-', '=', _ => some (.subTo, 2)
  | '-', _, _ => some (.negative, 1)
  | '*', '=', _ => some (.multiTo, 2)
  | '/', '=', _ => some (.divideTo, 2)
  | '<', '=', _ => some (.lessEqual, 2)
  | '<', '<', '=' => some (.lshTo, 3)
  | '<', _, _ => some (.lessThan, 1)
  | '>', '=', _ => some (.greaterEqual, 2)
  | '>', '>', '=' => some (.rshTo, 3)
  | '>', _, _ => some (.greaterThan, 1)
  | '&', '=', _ => some (.andTo, 2)
  | '&', _, _ => some (.and, 1)
  | '|', '=', _ => some (.orTo, 2)
  | '^', '=', _ => some (.xorTo, 2)
  | '!', '=', _ => some (.bangEqual, 2)
  | '!', _, _ => some (.bang, 1)
  | '=', '=', _ => some (.equalEqual, 2)
  | '=', _, _ => some (.equal, 1)
  | _, _, _ => none

def scanWord (text : Text) : TokenType × Nat :=
  let word := text.takeWhile isIdentifier
  if peekAt text word.length = ':' then (.labelDecl, word.length + 1)
  else (.identifier, word.length)

def digitValue (c : Char) : Option Nat :=
  if c.isDigit then some (c.toNat - '0'.toNat)
  else if 'a' ≤ c ∧ c ≤ 'f' then some (c.toNat - 'a'.toNat + 10)
  else if 'A' ≤ c ∧ c ≤ 'F' then some (c.toNat - 'A'.toNat + 10)
  else none

def isDigitIn (base : Nat) (c : Char) : Bool :=
  match digitValue c with
  | some value => decide (value < base)
  | none => false

def digitsValue (base : Nat) (digits : Text) : Nat :=
  digits.foldl (fun value c => value * base + (digitValue c).getD 0) 0

/-- `strtoul (text, &end, 0)` on a text that starts with a digit: the value, which is
not yet cut to the width of `unsigned long`, and the length of what was read. This is
`strtoul` before C23, which knows no prefix `0b`: of the `0b1111` that the documentation
promises it reads the 0. -/
def strtoul (text : Text) : Nat × Nat :=
  let plain (base : Nat) :=
    let digits := text.takeWhile (isDigitIn base)
    (digitsValue base digits, digits.length)
  if peekAt text 0 = '0' then
    if (peekAt text 1 = 'x' ∨ peekAt text 1 = 'X') ∧ isDigitIn 16 (peekAt text 2) then
      let digits := (text.drop 2).takeWhile (isDigitIn 16)
      (digitsValue 16 digits, digits.length + 2)
    else plain 8
  else plain 10

/-- What the rest of a line starts with, blanks skipped, when it is neither its end nor
a comment: type, length and number. `none` is an unknown character. -/
def scanLexeme (text : Text) : Option (TokenType × Nat × Word) :=
  let c := peekAt text 0
  let reserved :=
    if c.isLower then (matchTokenRange keywords text).or (scanArch text)
    else if c.isUpper then matchTokenRange actions text
    else none
  match reserved with
  | some (type, len) => some (type, len, 0)
  | none =>
      if c.isAlpha then
        let word := scanWord text
        some (word.1, word.2, 0)
      else if c.isDigit then
        let number := strtoul text
        if 2 ^ 32 ≤ number.1 then some (.overflowNumber, 1, 0)
        else some (.number, number.2, BitVec.ofNat 32 number.1)
      else (scanPunct text).map fun (type, len) => (type, len, 0)

def scanToken (scanner : Scanner) : Token × Scanner :=
  match scanner.rest with
  | none => ({ type := .tokenEof, start := [], len := 0, lineNr := scanner.lineNr, data := 0 }, scanner)
  | some rest =>
      let start := rest.dropWhile isSpace
      let token (type : TokenType) (len : Nat) (data : Word) : Token :=
        { type, start, len, lineNr := scanner.lineNr, data }
      if start = [] then
        (token .eol 1 0,
          { scanner with
            rest := scanner.lines.head?, lines := scanner.lines.tail, lineNr := scanner.lineNr + 1 })
      else if peekAt start 0 = '#' then
        (token .comment start.length 0, { scanner with rest := some [] })
      else
        match scanLexeme start with
        | some (type, len, data) =>
            (token type len data, { scanner with rest := some (start.drop len) })
        | none =>
            -- perhaps a wrong file: tell the parser to stop
            if scanner.unknownCount > 5 then
              (token .tokenEof 0 0, { scanner with rest := some start })
            else
              (token .unknown 1 0,
                { scanner with
                  rest := some (start.drop 1), unknownCount := scanner.unknownCount + 1 })

end Ceccomp
