import Ceccomp.Text.Inside
import Ceccomp.Text.Program

/-!
The numbers and the label table that `parser` returns: every statement has its place,
and a label stands for the first statement from its declaration on.
-/

namespace Ceccomp

theorem find_key_append (table added : LabelTable) (key : Text) (nr : Nat)
    (member : (key, nr) ∈ table) : findKey (table ++ added) key = findKey table key := by
  have some_ : (table.find? fun entry => entry.1 = key).isSome := by
    rw [List.find?_isSome]
    exact ⟨(key, nr), member, by simp⟩
  unfold findKey
  rw [List.find?_append, Option.or_of_isSome some_]

theorem find_key_fresh (table : LabelTable) (key : Text) (nr : Nat)
    (absent : ∀ old, (key, old) ∉ table) : findKey (table ++ [(key, nr)]) key = nr := by
  have none_ : table.find? (fun entry => entry.1 = key) = none := by
    rw [List.find?_eq_none]
    intro entry member same
    have own : entry.1 = key := by simpa using same
    exact absent entry.2 (own ▸ member)
  unfold findKey
  rw [List.find?_append, none_]
  simp

section Runs

variable {lib : Libseccomp} {localArch : Word}

theorem run_table {state last : ParseState} {text : List Statement}
    (run : ParseRun lib localArch state text last) :
    ∃ added, last.table = state.table ++ added := by
  have step (state next : ParseState) (statement : Statement)
      (parsed : parseLine lib localArch state = .ok (statement, next)) :
      ∃ added, next.table = state.table ++ added := by
    rcases (parse_line_step lib localArch state statement next parsed).labels with
      ⟨_, same⟩ | ⟨key, _, ⟨_, _, same⟩ | ⟨_, same⟩⟩
    · exact ⟨[], by rw [same, List.append_nil]⟩
    · exact ⟨[], by rw [same, List.append_nil]⟩
    · exact ⟨_, same⟩
  induction run with
  | stop state statement last parsed _ => exact step state last statement parsed
  | line state statement next later last parsed _ _ ih =>
      obtain ⟨first, one⟩ := step state next statement parsed
      obtain ⟨second, two⟩ := ih
      exact ⟨first ++ second, by rw [two, one, List.append_assoc]⟩

theorem run_declares {state last : ParseState} {text : List Statement}
    (run : ParseRun lib localArch state text last) (key : Text)
    (absent : ∀ nr, (key, nr) ∉ state.table) (i : Nat) (statement : Statement)
    (found : text[i]? = some statement) (declares : statement.labelDecl = some key)
    (first : ∀ j < i, ∀ other, text[j]? = some other → other.labelDecl ≠ some key) :
    findKey last.table key = statement.codeNr := by
  induction run generalizing i with
  | stop => simp at found
  | line state head next later last parsed more rest ih =>
      have labels := (parse_line_step lib localArch state head next parsed).labels
      cases i with
      | zero =>
          -- the first declaration enters its number, and the table keeps first entries
          cases found
          rcases labels with ⟨none_, _⟩ | ⟨own, declared, ⟨⟨nr, old⟩, _⟩ | ⟨fresh, added⟩⟩
          · rw [declares] at none_
            cases none_
          · rw [declares] at declared
            cases declared
            exact absurd old (absent nr)
          · rw [declares] at declared
            cases declared
            obtain ⟨behind, same⟩ := run_table rest
            rw [same, find_key_append _ _ key statement.codeNr (by simp [added]), added,
              find_key_fresh _ _ _ fresh]
      | succ i =>
          -- this line declares another key, if any
          have other := first 0 (Nat.zero_lt_succ i) head rfl
          apply ih _ i found fun j before => first (j + 1) (Nat.succ_lt_succ before)
          intro nr member
          rcases labels with ⟨_, same⟩ | ⟨own, declared, ⟨_, _, same⟩ | ⟨_, same⟩⟩
          · exact absent nr (same ▸ member)
          · exact absent nr (same ▸ member)
          · rw [same, List.mem_append, List.mem_singleton] at member
            rcases member with old | added
            · exact absent nr old
            · cases added
              exact other declared

theorem run_duplicate {state last : ParseState} {text : List Statement}
    (run : ParseRun lib localArch state text last) (key : Text) (nr : Nat)
    (known : (key, nr) ∈ state.table) (i : Nat) (statement : Statement)
    (found : text[i]? = some statement) (declares : statement.labelDecl = some key) :
    ∃ error, statement.line = .error error := by
  induction run generalizing i with
  | stop => simp at found
  | line state head next later last parsed more rest ih =>
      have labels := (parse_line_step lib localArch state head next parsed).labels
      cases i with
      | zero =>
          cases found
          rcases labels with ⟨none_, _⟩ | ⟨own, declared, ⟨_, failed, _⟩ | ⟨fresh, _⟩⟩
          · rw [declares] at none_
            cases none_
          · exact failed
          · rw [declares] at declared
            cases declared
            exact absurd known (fresh nr)
      | succ i =>
          apply ih _ i found
          rcases labels with ⟨_, same⟩ | ⟨own, declared, ⟨_, _, same⟩ | ⟨_, same⟩⟩
          · exact same ▸ known
          · exact same ▸ known
          · rw [same]
            exact List.mem_append_left _ known

theorem run_declared_twice {state last : ParseState} {text : List Statement}
    (run : ParseRun lib localArch state text last) (key : Text) (i j : Nat)
    (first second : Statement) (order : i < j) (here : text[i]? = some first)
    (there : text[j]? = some second) (declares : first.labelDecl = some key)
    (again : second.labelDecl = some key) : ∃ error, second.line = .error error := by
  induction run generalizing i j with
  | stop => simp at here
  | line state head next later last parsed more rest ih =>
      cases j with
      | zero => cases order
      | succ j =>
          cases i with
          | succ i => exact ih i j (Nat.lt_of_succ_lt_succ order) here there
          | zero =>
              cases here
              rcases (parse_line_step lib localArch state first next parsed).labels with
                ⟨none_, _⟩ | ⟨own, declared, ⟨⟨nr, old⟩, _, same⟩ | ⟨_, same⟩⟩
              · rw [declares] at none_
                cases none_
              · rw [declares] at declared
                cases declared
                exact run_duplicate rest key nr (same ▸ old) j second there again
              · rw [declares] at declared
                cases declared
                exact run_duplicate rest key first.codeNr (by simp [same]) j second there again

end Runs

theorem count_code_between (text : List Statement) (i k : Nat) (order : i ≤ k)
    (empty : ∀ m between, i ≤ m → m < k → text[m]? = some between → between.line = .empty) :
    countCode (text.take k) = countCode (text.take i) := by
  obtain ⟨n, rfl⟩ := Nat.exists_eq_add_of_le order
  clear order
  induction n with
  | zero => rfl
  | succ n ih =>
      rw [← ih fun m between low high => empty m between low (Nat.lt_succ_of_lt high)]
      rw [← Nat.add_assoc, List.take_add_one]
      cases here : text[i + n]? with
      | none => simp
      | some statement =>
          have none_ := empty (i + n) statement (Nat.le_add_right i n) (Nat.lt_succ_self _) here
          rw [countCode, countCode, codePtrs, codePtrs, List.filter_append]
          simp [none_]

/-- The number a label has is that of the first statement from index `i` on. -/
structure LabelStands (parsed : Parsed) (i : Nat) (key : Text) : Prop where
  first : ∀ k statement, i ≤ k → parsed.text[k]? = some statement → statement.line ≠ .empty →
    (∀ m between, i ≤ m → m < k → parsed.text[m]? = some between → between.line = .empty) →
    findKey parsed.table key = statement.codeNr
  behind : (∀ m between, i ≤ m → parsed.text[m]? = some between → between.line = .empty) →
    findKey parsed.table key = (codePtrs parsed.text).length + 1

/-- Statements are numbered by their place in the text and among the non-empty ones, a
label stands for the first of these from its first declaration on, and every further
declaration of it is an error line. -/
theorem parser_numbers (lib : Libseccomp) (localArch : Word) (file : Text) (lines : List Text)
    (read : sourceLines file = .ok lines) (parsed : Parsed)
    (parses : parser lib localArch lines = some (.ok parsed)) :
    (∀ (i : Nat) statement, parsed.text[i]? = some statement → statement.textNr = i + 1) ∧
    (codePtrs parsed.text).Sublist parsed.text ∧
    (∀ statement, statement ∈ codePtrs parsed.text ↔
      statement ∈ parsed.text ∧ statement.line ≠ .empty) ∧
    (∀ (j : Nat) statement, (codePtrs parsed.text)[j]? = some statement →
      statement.codeNr = j + 1) ∧
    (∀ (i : Nat) statement key, parsed.text[i]? = some statement →
      statement.labelDecl = some key →
      (∀ j < i, ∀ other, parsed.text[j]? = some other → other.labelDecl ≠ some key) →
      LabelStands parsed i key) ∧
    (∀ (i j : Nat) first second key, i < j → parsed.text[i]? = some first →
      parsed.text[j]? = some second → first.labelDecl = some key →
      second.labelDecl = some key → ∃ error, second.line = .error error) ∧
    (∀ key nr, (key, nr) ∈ parsed.table →
      (∀ statement ∈ parsed.text, statement.labelDecl ≠ some key) →
      nr = (codePtrs parsed.text).length + 1) := by
  have text := parser_text lib localArch lines parsed parses
  obtain ⟨last, run, table⟩ := parser_run lib localArch lines parsed parses
  have few := source_lines_length file lines read
  have short := text.length
  simp only [bpfMaxInsns] at few
  -- 16 bits are enough for what `init_source` lets through
  have counted (i : Nat) : countCode (parsed.text.take i) ≤ parsed.text.length := by
    have sublist := List.filter_sublist (l := parsed.text.take i)
      (p := fun statement : Statement => statement.line ≠ .empty)
    have taken := sublist.length_le
    rw [List.length_take] at taken
    have same : countCode (parsed.text.take i) = ((parsed.text.take i).filter
      fun statement => statement.line ≠ .empty).length := rfl
    omega
  have number (i : Nat) (statement : Statement) (found : parsed.text[i]? = some statement) :
      statement.codeNr = countCode (parsed.text.take i) + 1 := by
    rw [text.codeNr i statement found]
    have bound := counted i
    omega
  have whole : countCode parsed.text ≤ parsed.text.length := by
    have bound := counted parsed.text.length
    rwa [List.take_length] at bound
  refine ⟨fun i statement found => ?_, List.filter_sublist, fun statement => ?_,
    fun j statement found => ?_, fun i statement key found declares first => ?_,
    fun i j first second key order here there declares again => ?_,
    fun key nr member absent => ?_⟩
  · have inside := (List.getElem?_eq_some_iff.mp found).1
    rw [text.textNr i statement found]
    omega
  · simp [codePtrs]
  · obtain ⟨i, here, _, count⟩ := count_at_code parsed.text j statement found
    rw [number i statement here, count]
  · have stands : findKey parsed.table key = statement.codeNr := by
      rw [table]
      exact run_declares run key (fun nr member => by cases member) i statement found declares first
    constructor
    · intro k other order here counts empty
      rw [stands, number i statement found, number k other here,
        count_code_between parsed.text i k order empty]
    · intro empty
      have inside := (List.getElem?_eq_some_iff.mp found).1
      have same := count_code_between parsed.text i parsed.text.length (Nat.le_of_lt inside)
        fun m between low _ => empty m between low
      rw [List.take_length] at same
      rw [stands, number i statement found, ← same, countCode]
  · exact run_declared_twice run key i j first second order here there declares again
  · rcases text.labels key nr member with ⟨statement, there, declares, _⟩ | behind
    · exact absurd declares (absent statement there)
    · rw [behind]
      have same : countCode parsed.text = (codePtrs parsed.text).length := rfl
      omega

def endLabel : Text := "goto end\nreturn KILL\nend:\n\nreturn ALLOW\n".toList

theorem end_label_read : (readProgram namelessLib archX8664 endLabel).isSome = true := by
  decide +kernel

def endLabelProgram : TextProgram namelessLib archX8664 :=
  (readProgram namelessLib archX8664 endLabel).get end_label_read

/-- The label in front of the empty line stands for the third instruction. -/
theorem parser_numbers_end_label :
    LabelStands endLabelProgram.parsed 2 "end".toList ∧
      findKey endLabelProgram.parsed.table "end".toList = 3 := by
  obtain ⟨_, _, _, _, labels, _⟩ := parser_numbers namelessLib archX8664 _ _ endLabelProgram.read _
    endLabelProgram.parses
  have third : (endLabelProgram.parsed.text[2]?.bind Statement.labelDecl) = some "end".toList := by
    decide +kernel
  obtain ⟨decl, found, declares⟩ := Option.bind_eq_some_iff.mp third
  have earlier : ∀ j < 2, (endLabelProgram.parsed.text[j]?.bind Statement.labelDecl) = none := by
    decide +kernel
  constructor
  · apply labels 2 decl _ found declares
    intro j before other there again
    have none_ := earlier j before
    rw [there, Option.bind_some, again] at none_
    cases none_
  · decide +kernel

end Ceccomp
