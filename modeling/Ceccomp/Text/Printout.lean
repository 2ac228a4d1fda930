import Ceccomp.Text.Listing
import Ceccomp.Disasm.Legible

/-!
The text of `print_prog` as a listing: the remarks around the program, and a line for
each filter behind its label.
-/

namespace Ceccomp

def remarkLine (comment : Text) : ListedLine :=
  { raw := '#' :: comment, key := none, line := .empty, pc := 0 }

def filterLine (pc : Nat) (f : Filter) (line : Line) (text rest : Text) : ListedLine :=
  { raw := ' ' :: lineAhead (some (defaultLabel (pc + 1))) f.columns (text ++ rest)
    key := some (defaultLabel (pc + 1)), line, pc := pc + 1 }

section Words

theorem padded_number (width value : Nat) (small : value < 2 ^ 32) :
    NumberWord (paddedHex width value) (BitVec.ofNat 32 value) := by
  have zeros (count : Nat) (digits : Text) :
      digitsValue 16 (List.replicate count '0' ++ digits) = digitsValue 16 digits := by
    induction count with
    | zero => rfl
    | succ count ih => exact ih
  have hex : ∀ c ∈ (hexText value).leftpad width '0', isDigitIn 16 c = true := by
    intro c member
    rcases List.mem_append.mp member with zero | digit
    · rw [List.eq_of_mem_replicate zero]
      rfl
    · exact to_digits_all 16 (by decide) (by decide) value c digit
  have nonempty : (hexText value).leftpad width '0' ≠ [] := by
    intro none
    have digits := (List.append_eq_nil_iff.mp none).2
    exact Nat.toDigits_ne_nil digits
  intro rest stops
  have read := strtoul_hex 'x' (Or.inl rfl) nonempty hex stops
  have number : digitsValue 16 ((hexText value).leftpad width '0') = value := by
    rw [List.leftpad, zeros]
    exact to_digits_value 16 (by decide) (by decide) value
  rw [number] at read
  exact number_lexeme (paddedHex width value) rest value rfl read small

theorem columns_numbers (f : Filter) :
    ∀ word ∈ f.columns, ∃ data, NumberWord word data := by
  have code := f.code.isLt
  have jt := f.jt.isLt
  have jf := f.jf.isLt
  have k := f.k.isLt
  intro word member
  simp only [Filter.columns, List.mem_cons, List.not_mem_nil, or_false] at member
  rcases member with rfl | rfl | rfl | rfl
  · exact ⟨_, padded_number 2 _ (by omega)⟩
  · exact ⟨_, padded_number 2 _ (by omega)⟩
  · exact ⟨_, padded_number 2 _ (by omega)⟩
  · exact ⟨_, padded_number 8 _ (by omega)⟩

theorem padded_tame (width value : Nat) (narrow : width ≤ 8) (small : value < 2 ^ 32) :
    Tame 10 (paddedHex width value) := by
  have digits : Tame 8 (hexText value) :=
    digits_tame 16 (by decide) (by decide) 8 value (by decide) small
  exact tame_cons 9 '0' _ rfl (tame_cons 8 'x' _ rfl (leftpad_tame width 8 _ digits narrow))

theorem columns_tame (f : Filter) : Tame 44 (Parser.columnsText f.columns) := by
  have code := f.code.isLt
  have jt := f.jt.isLt
  have jf := f.jf.isLt
  have k := f.k.isLt
  have column (width value : Nat) (narrow : width ≤ 8) (small : value < 2 ^ 32) :
      Tame 11 (' ' :: paddedHex width value) :=
    tame_cons 10 ' ' _ rfl (padded_tame width value narrow small)
  have each := tame_append _ _ _ _ (column 2 f.code.toNat (by decide) (by omega))
    (tame_append _ _ _ _ (column 2 f.jt.toNat (by decide) (by omega))
      (tame_append _ _ _ _ (column 2 f.jf.toNat (by decide) (by omega))
        (column 8 f.k.toNat (by decide) (by omega))))
  simpa [Parser.columnsText, Filter.columns] using each

end Words

theorem decoded_comment (pc : Nat) (insn : Insn) :
    (Formatter.printComment (insn.statement (pc + 1)) = [] ∨
      Formatter.printComment (insn.statement (pc + 1)) = ' ' :: scmpDataLenStr) := by
  have silent (remark : insn.remark = []) :
      Formatter.printComment (insn.statement (pc + 1)) = [] := by
    simp [Formatter.printComment, Insn.statement, remark]
  cases insn with
  | ldLen dst =>
      refine Or.inr ?_
      simp [Formatter.printComment, Insn.statement, Insn.remark, Insn.line, AssignLine.mk',
        scmpDataLenStr]
  | ldAbs _ | ldImm _ _ | ldMem _ _ | st _ _ | alu _ _ | neg | tax | txa | ja _ | jmp _ _ _ _
  | retA | retK _ => exact Or.inl (silent rfl)

theorem comment_tame (pc : Nat) (insn : Insn) :
    Tame 7 (Formatter.printComment (insn.statement (pc + 1))) := by
  rcases decoded_comment pc insn with none_ | some_
  · rw [none_]
    exact tame_nil 7
  · rw [some_]
    exact tame_word 7 _ (by decide) rfl

theorem comment_remark (pc : Nat) (insn : Insn) (line : Line) (proper : line ≠ .empty) :
    Parser.Remark line (Formatter.printComment (insn.statement (pc + 1))) := by
  rcases decoded_comment pc insn with none_ | some_
  · exact Or.inl none_
  · refine Or.inr ⟨" 0x40".toList, ?_⟩
    rw [some_, if_neg proper]
    rfl

theorem tame_plain (bound : Nat) (text : Text) (tame : Tame bound text) (few : bound < maxLineLen) :
    PlainLine text := by
  have apart (c : Char) (bad : plainChar c = false) : c ∉ text := by
    intro member
    rw [tame.plain c member] at bad
    cases bad
  exact
    { short := Nat.lt_of_le_of_lt tame.short few
      single := apart '\n' rfl
      noZero := apart nulChar rfl
      noEscape := apart escChar rfl
      noReturn := apart '\r' rfl }

section Lines

variable (lib : Libseccomp) (localArch : Word)

theorem remark_readable (comment : Text) : (remarkLine comment).Readable lib localArch := by
  intro state scanner few _ here
  exact plain_line_reads lib localArch .empty 0 trivial [] ('#' :: comment) rfl
    (Or.inr ⟨comment, rfl⟩) state few scanner here

structure FilterListed (pc : Nat) (insn : Insn) (listed : ListedLine) : Prop where
  readable : listed.Readable lib localArch
  tame : Tame 300 listed.raw
  key : listed.key = some (defaultLabel (pc + 1))
  proper : listed.line ≠ .empty
  meaning : ∀ again, listed.line.Restated listed.pc again → insn.line.Restated (pc + 1) again

theorem filter_listed (pc : Nat) (small : pc + 1 < 2 ^ 16) (f : Filter) (insn : Insn)
    (statement : Statement) (shown : StatementShown lib localArch pc insn statement) :
    ∃ listed, printFilter (pc + 1) f statement = some (listed.raw ++ ['\n']) ∧
      FilterListed lib localArch pc insn listed := by
  obtain ⟨line, text, own⟩ := shown.line
  let rest := Formatter.printComment (insn.statement (pc + 1))
  refine ⟨filterLine pc f line text rest, ?_, ?_⟩
  · have printed : printStatement statement = some (text ++ rest ++ ['\n']) := by
      have body := own.printed
      rw [← shown.codeNr] at body
      rw [print_statement_text, body, shown.comment]
      rfl
    simp [printFilter, printed, filterLine, lineAhead, Parser.columnsText]
  · refine
      { readable := ?_, tame := ?_, key := rfl, proper := own.proper, meaning := own.meaning }
    · intro state scanner few fresh here
      have fresh := fresh _ rfl
      have here : state.tokens.At scanner _ := (at_blank _ _ _).mp here
      exact labelled_line_reads lib localArch _ (default_label_plain (pc + 1)) f.columns
        (columns_numbers f) (by simp [Filter.columns]) line (pc + 1) own.legible text rest own.plainly
        (comment_remark pc insn line own.proper) state fresh few scanner here
    · have label := default_label_tame (pc + 1) (by omega)
      have body := tame_append _ _ _ _ own.tame (comment_tame pc insn)
      have columns := tame_append _ _ _ _ (columns_tame f) (tame_cons _ ' ' _ rfl body)
      have whole := tame_cons _ ' ' _ rfl (tame_append _ _ _ _ label (tame_cons _ ':' _ rfl columns))
      exact tame_mono _ _ _ whole (by decide)

theorem filters_listed (filters : List Filter) (shown : List Statement) (pc : Nat)
    (length : shown.length = filters.length) (small : pc + filters.length < 2 ^ 16)
    (each : ∀ (i : Nat) (f : Filter), filters[i]? = some f → ∃ insn statement,
      f.insn? = some insn ∧ shown[i]? = some statement ∧
        StatementShown lib localArch (pc + i) insn statement) :
    ∃ listing : List ListedLine,
      printFrom (pc + 1) filters shown = some (unixFile (listing.map ListedLine.raw)) ∧
      listing.length = filters.length ∧
      ∀ (i : Nat) (f : Filter), filters[i]? = some f → ∃ insn listed, f.insn? = some insn ∧
        listing[i]? = some listed ∧ FilterListed lib localArch (pc + i) insn listed := by
  induction filters generalizing pc shown with
  | nil =>
      cases shown with
      | nil => exact ⟨[], rfl, rfl, by simp⟩
      | cons statement shown => cases length
  | cons f filters ih =>
      cases shown with
      | nil => cases length
      | cons statement shown =>
          rw [List.length_cons] at small
          obtain ⟨insn, first, valid, here, own⟩ := each 0 f rfl
          cases here
          obtain ⟨listed, printed, whole⟩ :=
            filter_listed lib localArch pc (by omega) f insn statement own
          obtain ⟨listing, later, same, rest⟩ := ih shown (pc + 1) (by simpa using length) (by omega)
            (by
              intro i other found
              obtain ⟨insn, shownOther, valid, there, one⟩ := each (i + 1) other (by simpa using found)
              rw [← Nat.add_assoc, Nat.add_right_comm] at one
              exact ⟨insn, shownOther, valid, by simpa using there, one⟩)
          refine ⟨listed :: listing, ?_, by simp [same], ?_⟩
          · rw [printFrom, printed, later]
            simp [unix_file_cons]
          · intro i other found
            cases i with
            | zero =>
                cases found
                exact ⟨insn, listed, valid, rfl, whole⟩
            | succ i =>
                obtain ⟨insn, line, valid, there, one⟩ := rest i other (by simpa using found)
                rw [Nat.add_right_comm, Nat.add_assoc] at one
                exact ⟨insn, line, valid, by simpa using there, one⟩

end Lines

def framedListing (front back : List Text) (listing : List ListedLine) : List ListedLine :=
  front.map remarkLine ++ (listing ++ back.map remarkLine)

def printedListing (pid : Nat) (listing : List ListedLine) : List ListedLine :=
  framedListing [columnNames, pidSeparator pid] [separator] listing

structure Remarks (front back : List Text) : Prop where
  tame : ∀ comment ∈ front ++ back, Tame 45 comment
  few : front.length + back.length ≤ 3

structure ProgramListed (lib : Libseccomp) (localArch : Word) (prog : List Filter)
    (listing : List ListedLine) : Prop where
  length : listing.length = prog.length
  each : ∀ (pc : Nat) (f : Filter), prog[pc]? = some f → ∃ insn listed, f.insn? = some insn ∧
    listing[pc]? = some listed ∧ FilterListed lib localArch pc insn listed

section Texts

theorem pid_separator_tame (pid : Nat) : Tame 45 (pidSeparator pid) := by
  have line : Tame 33 separator := tame_word 33 _ (by decide) rfl
  unfold pidSeparator
  split
  · exact tame_mono 33 45 _ line (by decide)
  · have digits : Tame 7 ((decText pid).take 7) := by
      constructor
      · exact List.length_take_le 7 _
      · intro c member
        exact identifier_plain_char c (digit_identifier 10 c
          (to_digits_all 10 (by decide) (by decide) pid c (List.mem_of_mem_take member)))
    have rest : Tame 33 (separator.take (33 - 5 - (decText pid).length)) := by
      constructor
      · exact Nat.le_trans (List.length_take_le' _ _) line.short
      · intro c member
        exact line.plain c (List.mem_of_mem_take member)
    have head : Tame 4 ['P', 'I', 'D', '='] := tame_word 4 _ (by decide) rfl
    exact tame_append 11 34 _ _ (tame_append 4 7 _ _ head digits) (tame_cons 33 ' ' _ rfl rest)

theorem unix_file_short (bound : Nat) (lines : List Text)
    (each : ∀ line ∈ lines, line.length ≤ bound) :
    (unixFile lines).length ≤ lines.length * (bound + 1) := by
  induction lines with
  | nil => simp [unixFile, pack]
  | cons line rest ih =>
      obtain ⟨own, others⟩ := List.forall_mem_cons.mp each
      have later := ih others
      rw [unix_file_cons, List.length_append, List.length_cons, List.length_cons, Nat.succ_mul]
      omega

variable {lib : Libseccomp} {localArch : Word} {prog : List Filter} {listing : List ListedLine}
  (listed : ProgramListed lib localArch prog listing)

include listed

theorem listed_member (line : ListedLine) (member : line ∈ listing) :
    ∃ pc insn, FilterListed lib localArch pc insn line := by
  obtain ⟨pc, here⟩ := List.mem_iff_getElem?.mp member
  have inside : pc < prog.length := by
    rw [← listed.length]
    exact (List.getElem?_eq_some_iff.mp here).1
  obtain ⟨insn, other, _, there, own⟩ := listed.each pc prog[pc] (List.getElem?_eq_getElem inside)
  rw [here] at there
  cases there
  exact ⟨pc, insn, own⟩

theorem framed_member {front back : List Text} (remarks : Remarks front back) (line : ListedLine)
    (member : line ∈ framedListing front back listing) :
    line.Readable lib localArch ∧ Tame 300 line.raw := by
  have remark (comment : Text) (there : comment ∈ front ++ back) :
      (remarkLine comment).Readable lib localArch ∧ Tame 300 (remarkLine comment).raw :=
    ⟨remark_readable _ _ _,
      tame_mono _ _ _ (tame_cons 45 '#' comment rfl (remarks.tame comment there)) (by decide)⟩
  simp only [framedListing, List.mem_append, List.mem_map] at member
  rcases member with ⟨comment, before, rfl⟩ | inner | ⟨comment, behind, rfl⟩
  · exact remark comment (List.mem_append_left _ before)
  · obtain ⟨pc, insn, own⟩ := listed_member listed line inner
    exact ⟨own.readable, own.tame⟩
  · exact remark comment (List.mem_append_right _ behind)

omit listed in
theorem remarks_no_code (comments : List Text) : listedCode (comments.map remarkLine) = [] := by
  induction comments with
  | nil => rfl
  | cons comment rest ih => exact ih

theorem framed_code (front back : List Text) :
    listedCode (framedListing front back listing) = listing := by
  have proper : listedCode listing = listing := by
    apply List.filter_eq_self.mpr
    intro line member
    obtain ⟨pc, insn, own⟩ := listed_member listed line member
    exact decide_eq_true own.proper
  have before := remarks_no_code front
  have behind := remarks_no_code back
  unfold listedCode at before behind proper
  rw [listedCode, framedListing, List.filter_append, List.filter_append, before, behind, proper,
    List.nil_append, List.append_nil]

theorem listed_keys : listing.filterMap ListedLine.key =
    (List.range prog.length).map fun pc => defaultLabel (pc + 1) := by
  have each : listing.map ListedLine.key =
      (List.range prog.length).map fun pc => some (defaultLabel (pc + 1)) := by
    refine List.ext_getElem? fun pc => ?_
    rw [List.getElem?_map, List.getElem?_map]
    rcases Nat.lt_or_ge pc prog.length with inside | outside
    · obtain ⟨insn, line, _, there, own⟩ := listed.each pc prog[pc] (List.getElem?_eq_getElem inside)
      rw [there, List.getElem?_range inside]
      exact congrArg some own.key
    · rw [List.getElem?_eq_none_iff.mpr (listed.length ▸ outside),
        List.getElem?_eq_none_iff.mpr (by rwa [List.length_range])]
      rfl
  have same : listing.filterMap ListedLine.key = (listing.map ListedLine.key).filterMap id := by
    rw [List.filterMap_map]
    rfl
  rw [same, each, List.filterMap_map]
  exact congrFun List.filterMap_eq_map (List.range prog.length)

omit listed in
theorem remarks_no_keys (comments : List Text) :
    (comments.map remarkLine).filterMap ListedLine.key = [] := by
  induction comments with
  | nil => rfl
  | cons comment rest ih => exact ih

theorem framed_keys (front back : List Text) :
    ((framedListing front back listing).filterMap ListedLine.key).Nodup := by
  rw [framedListing, List.filterMap_append, List.filterMap_append, remarks_no_keys,
    remarks_no_keys, List.nil_append, List.append_nil, listed_keys listed]
  refine List.Pairwise.map _ ?_ List.nodup_range
  intro pc other apart same
  exact apart (Nat.succ.inj (default_label_inj _ _ same))

end Texts

theorem listed_label (listing : List ListedLine) (pc i : Nat)
    (proper : ∀ line ∈ listing, line.line ≠ .empty)
    (keys : ∀ (j : Nat) line, listing[j]? = some line →
      line.key = some (defaultLabel (pc + j + 1))) (inside : i < listing.length)
    (after : List ListedLine) :
    findKey (listedLabels pc (listing ++ after)) (defaultLabel (pc + i + 1)) = pc + i + 1 := by
  induction listing generalizing pc i with
  | nil => exact absurd inside (Nat.not_lt_zero i)
  | cons line rest ih =>
      obtain ⟨own, others⟩ := List.forall_mem_cons.mp proper
      have key := keys 0 line rfl
      rw [List.cons_append, listedLabels, if_neg own, key]
      cases i with
      | zero => simp [findKey]
      | succ i =>
          have apart : defaultLabel (pc + 0 + 1) ≠ defaultLabel (pc + (i + 1) + 1) := by
            intro same
            have numbers := default_label_inj _ _ same
            omega
          have later := ih (pc + 1) i others
            (by
              intro j other there
              have declared := keys (j + 1) other (by simpa using there)
              rwa [← Nat.add_assoc, Nat.add_right_comm pc j 1] at declared)
            (Nat.lt_of_succ_lt_succ inside)
          rw [Nat.add_right_comm pc 1 i, Nat.add_assoc pc i 1] at later
          simpa [findKey, apart] using later

theorem shown_listed (lib : Libseccomp) (localArch : Word) (prog : List Filter)
    (shown : List Statement) (small : prog.length < 2 ^ 16) (length : shown.length = prog.length)
    (valid : ∀ (pc : Nat) (f : Filter), prog[pc]? = some f → ∃ insn, f.insn? = some insn)
    (each : ∀ pc insn, insnAt prog pc = some insn → ∃ statement, shown[pc]? = some statement ∧
      StatementShown lib localArch pc insn statement) :
    ∃ listing, printFrom 1 prog shown = some (unixFile (listing.map ListedLine.raw)) ∧
      ProgramListed lib localArch prog listing := by
  obtain ⟨listing, printed, same, lines⟩ := filters_listed lib localArch prog shown 0 length
    (by rwa [Nat.zero_add])
    (by
      intro pc f here
      obtain ⟨insn, decodes⟩ := valid pc f here
      obtain ⟨statement, there, own⟩ := each pc insn (by rw [insnAt, here]; exact decodes)
      rw [Nat.zero_add]
      exact ⟨insn, statement, decodes, there, own⟩)
  refine ⟨listing, printed, same, ?_⟩
  intro pc f here
  have line := lines pc f here
  rwa [Nat.zero_add] at line

theorem printed_text (pid : Nat) (listing : List ListedLine) :
    printAsComment columnNames ++ printAsComment (pidSeparator pid) ++
        unixFile (listing.map ListedLine.raw) ++ printAsComment separator =
      unixFile ((printedListing pid listing).map ListedLine.raw) := by
  have short := (pid_separator_tame pid).short
  rw [print_as_comment_text columnNames (by decide), print_as_comment_text separator (by decide),
    print_as_comment_text (pidSeparator pid) (by omega)]
  simp [printedListing, framedListing, remarkLine, unixFile, pack]

theorem print_remarks (pid : Nat) : Remarks [columnNames, pidSeparator pid] [separator] where
  tame := by
    intro comment member
    simp only [List.cons_append, List.nil_append, List.mem_cons, List.not_mem_nil, or_false] at member
    rcases member with rfl | rfl | rfl
    · exact tame_word 45 _ (by decide) rfl
    · exact pid_separator_tame pid
    · exact tame_word 45 _ (by decide) rfl
  few := Nat.le_refl 3

section Parses

variable {lib : Libseccomp} {localArch : Word} {prog : List Filter} {listing : List ListedLine}
  (listed : ProgramListed lib localArch prog listing) (few : prog.length ≤ bpfMaxInsns)
  {front back : List Text} (remarks : Remarks front back)

include listed few remarks

theorem framed_source (nonempty : prog ≠ []) :
    sourceLines (unixFile ((framedListing front back listing).map ListedLine.raw)) =
      .ok ((framedListing front back listing).map ListedLine.raw) := by
  have tame : ∀ line ∈ (framedListing front back listing).map ListedLine.raw, Tame 300 line := by
    intro line member
    obtain ⟨own, there, rfl⟩ := List.mem_map.mp member
    exact (framed_member listed remarks own there).2
  have length : ((framedListing front back listing).map ListedLine.raw).length =
      prog.length + (front.length + back.length) := by
    simp only [framedListing, List.length_map, List.length_append, listed.length]
    omega
  have less := remarks.few
  have some_ := List.length_pos_iff.mpr nonempty
  have small := unix_file_short 300 _ fun line member => (tame line member).short
  rw [length] at small
  simp only [bpfMaxInsns] at few
  cases lines : (framedListing front back listing).map ListedLine.raw with
  | nil =>
      rw [lines, List.length_nil] at length
      omega
  | cons first rest =>
      rw [lines] at tame length small
      refine plain_lines_read _ _ ?_ ?_ ?_
      · intro line member
        exact tame_plain 300 line (tame line member) (by decide)
      · simp only [bpfMaxInsns]
        omega
      · refine Nat.le_trans small ?_
        simp only [maxFileLen]
        omega

end Parses

end Ceccomp
