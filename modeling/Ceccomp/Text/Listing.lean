import Ceccomp.Text.Reparsed
import Ceccomp.Text.Labels

/-!
A whole text of lines that can be read: `parser` finds the labels, the numbers and the
statements they were written for.
-/

namespace Ceccomp

/-- A line as it is written, the label in front of it, and what it was written for. -/
structure ListedLine where
  raw : Text
  key : Option Text
  line : Line
  pc : Nat

/-- Wherever the parser meets the line, it reads what it was written for. -/
def ListedLine.Readable (lib : Libseccomp) (localArch : Word) (listed : ListedLine) : Prop :=
  ∀ (state : ParseState) (scanner : Scanner),
    (listed.line ≠ .empty → (state.codeNr + 1) % 2 ^ 16 ≤ bpfMaxInsns) →
    (∀ key, listed.key = some key → ∀ entry ∈ state.table, entry.1 ≠ key) →
    state.tokens.At scanner listed.raw →
    ∃ statement next, parseLine lib localArch state = .ok (statement, next) ∧
      LineRead state scanner listed.key listed.line listed.pc statement next

def listedCode (listing : List ListedLine) : List ListedLine :=
  listing.filter fun listed => listed.line ≠ .empty

/-- The label table of a listing whose first statement has the number `codeNr + 1`. -/
def listedLabels : Nat → List ListedLine → LabelTable
  | _, [] => []
  | codeNr, listed :: rest =>
      (listed.key.map fun key => (key, codeNr + 1)).toList ++
        listedLabels (if listed.line = .empty then codeNr else codeNr + 1) rest

inductive CodeRead : Nat → List ListedLine → List Statement → Prop where
  | nil (codeNr : Nat) : CodeRead codeNr [] []
  | cons (codeNr : Nat) (listed : ListedLine) (rest : List ListedLine) (statement : Statement)
      (more : List Statement) (restated : listed.line.Restated listed.pc statement.line)
      (number : statement.codeNr = codeNr + 1) (later : CodeRead (codeNr + 1) rest more) :
      CodeRead codeNr (listed :: rest) (statement :: more)

theorem code_read_length (codeNr : Nat) (listing : List ListedLine) (code : List Statement)
    (read : CodeRead codeNr listing code) : code.length = listing.length := by
  induction read with
  | nil => rfl
  | cons _ _ _ _ _ _ _ _ ih => simp [ih]

theorem code_read_each (codeNr : Nat) (listing : List ListedLine) (code : List Statement)
    (read : CodeRead codeNr listing code) (i : Nat) (listed : ListedLine) (statement : Statement)
    (here : listing[i]? = some listed) (there : code[i]? = some statement) :
    listed.line.Restated listed.pc statement.line ∧ statement.codeNr = codeNr + i + 1 := by
  induction read generalizing i with
  | nil => simp at here
  | cons codeNr first rest found more restated number _ ih =>
      cases i with
      | zero =>
          cases here
          cases there
          exact ⟨restated, number⟩
      | succ i =>
          obtain ⟨same, next⟩ := ih i (by simpa using here) (by simpa using there)
          exact ⟨same, by omega⟩

theorem restated_empty (pc : Nat) (line again : Line) (restated : line.Restated pc again) :
    again = .empty ↔ line = .empty := by
  cases restated <;> simp

theorem restated_eof (pc : Nat) (line again : Line) (restated : line.Restated pc again) :
    again ≠ .eof := by
  cases restated <;> simp

theorem eof_read (lib : Libseccomp) (localArch : Word) (state : ParseState)
    (eof : state.tokens.next.type = .tokenEof) :
    ∃ statement next, parseLine lib localArch state = .ok (statement, next) ∧
      statement.line = .eof ∧ next.table = state.table := by
  obtain ⟨textNr, codeNr, tokens, table⟩ := state
  have eof : tokens.next.type = .tokenEof := eof
  have line_ (number : Nat) : Parser.line lib localArch number tokens = .ok .eof tokens := by
    rw [Parser.line_run]
    simp [eof]
  have past : pastComment tokens = tokens := by
    unfold pastComment
    rw [if_neg (by simp [eof])]
  have ends (comment : Option Nat) : Parser.lineEnd comment tokens = .ok tokens.next tokens := by
    rw [Parser.line_end_run]
    simp [eof]
  rw [parse_line_plain lib localArch textNr codeNr tokens table (by simp [eof])]
  rw [run_line_ok _ _ _ tokens tokens (by
    rw [Parser.expression_eq, line_]
    dsimp only
    rw [past, ends])]
  exact ⟨_, _, rfl, rfl, rfl⟩

section Listings

variable (lib : Libseccomp) (localArch : Word)

theorem ahead_line (tokens : Tokens) (scanner : Scanner) (here : Parser.AtNext tokens scanner)
    (raw : Text) (more : List Text) (lines : scanner.lines = raw :: more) :
    tokens.At { scanner with lines := more, lineNr := scanner.lineNr + 1 } raw := by
  unfold Parser.AtNext at here
  rw [lines] at here
  exact here

theorem ahead_eof (tokens : Tokens) (scanner : Scanner) (here : Parser.AtNext tokens scanner)
    (lines : scanner.lines = []) : tokens.next.type = .tokenEof := by
  unfold Parser.AtNext at here
  rw [lines] at here
  exact (congrArg (fun both => both.1.type) here).symm

/-- What the loop of `parser` makes of a listing from some state on. -/
structure ListingRead (state last : ParseState) (listing : List ListedLine)
    (text : List Statement) : Prop where
  code : CodeRead state.codeNr (listedCode listing) (codePtrs text)
  table : last.table = state.table ++ listedLabels state.codeNr listing

theorem listing_parses (listing : List ListedLine)
    (readable : ∀ listed ∈ listing, listed.Readable lib localArch) (fuel : Nat)
    (enough : listing.length < fuel) (state : ParseState) (scanner : Scanner)
    (few : state.codeNr + (listedCode listing).length ≤ bpfMaxInsns)
    (fresh : (state.table.map Prod.fst ++ listing.filterMap ListedLine.key).Nodup)
    (lines : scanner.lines = listing.map ListedLine.raw)
    (here : Parser.AtNext state.tokens scanner) :
    ∃ text last, parseLines lib localArch fuel state = some (.ok (text, last)) ∧
      ListingRead state last listing text := by
  induction listing generalizing fuel state scanner with
  | nil =>
      obtain ⟨fuel, rfl⟩ := Nat.exists_eq_succ_of_ne_zero (Nat.ne_of_gt enough)
      obtain ⟨statement, next, parsed, eof, table⟩ :=
        eof_read lib localArch state (ahead_eof _ scanner here lines)
      refine ⟨[], next, ?_, ?_⟩
      · simp [parseLines, parsed, eof]
      · constructor
        · exact .nil state.codeNr
        · rw [table, listedLabels, List.append_nil]
  | cons listed rest ih =>
      obtain ⟨fuel, rfl⟩ := Nat.exists_eq_succ_of_ne_zero (Nat.ne_of_gt (Nat.zero_lt_of_lt enough))
      have there := ahead_line _ scanner here listed.raw _ lines
      have small : (state.codeNr + 1) % 2 ^ 16 = state.codeNr + 1 := by
        simp only [bpfMaxInsns] at few
        exact Nat.mod_eq_of_lt (by omega)
      obtain ⟨statement, next, parsed, read⟩ := readable listed List.mem_cons_self state _
        (by
          intro proper
          have counted : 1 ≤ (listedCode (listed :: rest)).length := by
            simp [listedCode, proper]
          omega)
        (by
          intro key declared entry member same
          have apart := (List.nodup_append.mp fresh).2.2 entry.1 (List.mem_map_of_mem member) key
            (List.mem_filterMap.mpr ⟨listed, List.mem_cons_self, declared⟩)
          exact apart same) there
      -- a line is empty again exactly if it was, so the numbers go on alike
      have empty := restated_empty listed.pc listed.line statement.line read.restated
      have nextCode : next.codeNr =
          if listed.line = .empty then state.codeNr else state.codeNr + 1 := by
        rw [read.nextCode, small]
        by_cases none : listed.line = .empty
        · simp only [bpfMaxInsns] at few
          rw [if_pos (empty.mpr none), if_pos none]
          omega
        · rw [if_neg (fun same => none (empty.mp same)), if_neg none]
      have counted : (listedCode (listed :: rest)).length =
          (if listed.line = .empty then 0 else 1) + (listedCode rest).length := by
        by_cases none : listed.line = .empty
        · simp [listedCode, none]
        · simp [listedCode, none, Nat.add_comm]
      obtain ⟨text, last, looped, later⟩ := ih (fun other member => readable other
          (List.mem_cons_of_mem listed member)) fuel (Nat.lt_of_succ_lt_succ enough) next _
        (by
          rw [nextCode]
          split at counted <;> simp_all
          omega)
        (by
          rw [read.table, small]
          cases key : listed.key with
          | none => simpa [key] using fresh
          | some key_ => simpa [key] using fresh)
        rfl read.behind
      have proper := restated_eof listed.pc listed.line statement.line read.restated
      refine ⟨statement :: text, last, ?_, ?_⟩
      · simp [parseLines, parsed, proper, looped, Except.map]
      · constructor
        · have code := later.code
          rw [nextCode] at code
          by_cases none : listed.line = .empty
          · rw [if_pos none] at code
            simpa [listedCode, codePtrs, none, empty.mpr none] using code
          · rw [if_neg none] at code
            have number : statement.codeNr = state.codeNr + 1 := by rw [read.codeNr, small]
            have kept : statement.line ≠ .empty := fun same => none (empty.mp same)
            have whole := CodeRead.cons state.codeNr listed _ statement _ read.restated number code
            simpa [listedCode, codePtrs, none, kept] using whole
        · rw [later.table, read.table, small, nextCode, listedLabels, List.append_assoc]

theorem listing_parsed (listing : List ListedLine)
    (readable : ∀ listed ∈ listing, listed.Readable lib localArch)
    (few : (listedCode listing).length ≤ bpfMaxInsns)
    (fresh : (listing.filterMap ListedLine.key).Nodup) :
    ∃ parsed, parser lib localArch (listing.map ListedLine.raw) = some (.ok parsed) ∧
      CodeRead 0 (listedCode listing) (codePtrs parsed.text) ∧
      parsed.table = listedLabels 0 listing := by
  let lines := listing.map ListedLine.raw
  obtain ⟨text, last, looped, read⟩ := listing_parses lib localArch listing readable
    (lines.length + 2) (by simp [lines])
    { textNr := 0, codeNr := 0, tokens := initParser (initScanner lines), table := [] }
    { rest := none, lines, lineNr := 0, unknownCount := 0 } (by simpa using few) (by simpa using fresh)
    rfl rfl
  refine ⟨{ text, table := last.table }, ?_, read.code, ?_⟩
  · unfold parser
    rw [looped]
    rfl
  · simpa using read.table

end Listings

end Ceccomp
