import Ceccomp.Text.Recovery

/-!
A source with something that the scanner does not know never becomes a program: the parser
makes an error line of it, which the resolver reports.
-/

namespace Ceccomp

theorem error_line_reported (table : LabelTable) (code : List Statement)
    (some_ : code.length % 2 ^ 16 ≠ 0) (statement : Statement) (member : statement ∈ code)
    (error : ErrorLine) (line : statement.line = .error error) :
    ∃ resolved reports, resolver table code = .ok (resolved, reports) ∧ reports ≠ [] := by
  have returns : ∃ resolved reports, resolver table code = .ok (resolved, reports) := by
    unfold resolver
    dsimp only
    rw [if_neg some_]
    generalize resolveFrom table (code.length % 2 ^ 16) 1 code .start = run
    split
    · exact ⟨_, _, rfl⟩
    · split
      · exact ⟨_, _, rfl⟩
      · exact ⟨_, _, rfl⟩
  obtain ⟨resolved, reports, same⟩ := returns
  refine ⟨resolved, reports, same, ?_⟩
  rintro rfl
  obtain ⟨_, _, silent, _⟩ := resolver_run table code resolved same
  exact (resolve_from_errors _ _ _ _ _ _ _ rfl silent).2 statement member error line

/-- Whatever the scanner does not know, or why ever it gives up, the parser makes an error
line of it and the resolver returns true, unless there are too many statements; the source
is no program. -/
theorem garbage_never_silent (lib : Libseccomp) (localArch : Word) (file : Text)
    (lines : List Text) (read : sourceLines file = .ok lines) (unknown : Garbage lines) :
    ((parser lib localArch lines = some (.error .statementOverflow) ∧
        TooMany lib localArch lines) ∨
      ∃ parsed, parser lib localArch lines = some (.ok parsed) ∧
        (∃ statement ∈ codePtrs parsed.text, ∃ error, statement.line = .error error) ∧
        ∃ resolved reports,
          resolver parsed.table (codePtrs parsed.text) = .ok (resolved, reports) ∧
            reports ≠ []) ∧
      ∀ program : TextProgram lib localArch, program.file ≠ file := by
  have reported (parsed : Parsed) (parses : parser lib localArch lines = some (.ok parsed)) :
      (∃ statement ∈ codePtrs parsed.text, ∃ error, statement.line = .error error) ∧
        ∃ resolved reports,
          resolver parsed.table (codePtrs parsed.text) = .ok (resolved, reports) ∧
            reports ≠ [] := by
    obtain ⟨statement, member, error, line⟩ := garbage_seen lib localArch lines parsed parses unknown
    refine ⟨⟨statement, member, error, line⟩, ?_⟩
    apply error_line_reported parsed.table _ _ statement member error line
    have positive := List.length_pos_of_mem member
    have few := source_lines_length file lines read
    have length := (parser_text lib localArch lines parsed parses).length
    have part : (codePtrs parsed.text).length ≤ parsed.text.length := List.length_filter_le _ _
    simp only [bpfMaxInsns] at few
    omega
  constructor
  · rcases parser_local lib localArch lines with exits | ⟨parsed, parses, _⟩
    · exact Or.inl exits
    · exact Or.inr ⟨parsed, parses, reported parsed parses⟩
  · rintro program rfl
    have same : program.lines = lines := by
      have own := program.read
      rw [read] at own
      cases own
      rfl
    subst same
    obtain ⟨_, resolved, reports, resolves, some_⟩ := reported program.parsed program.parses
    rw [program.resolves] at resolves
    cases resolves
    exact some_ rfl

theorem garbage_never_silent_dollars :
    ∃ parsed resolved reports,
      parser namelessLib archX8664 ["return ALLOW".toList, "$$$".toList] = some (.ok parsed) ∧
        resolver parsed.table (codePtrs parsed.text) = .ok (resolved, reports) ∧ reports ≠ [] := by
  have read : sourceLines "return ALLOW\n$$$".toList =
      .ok ["return ALLOW".toList, "$$$".toList] := by decide +kernel
  have unknown : Garbage ["return ALLOW".toList, "$$$".toList] := ⟨3, Or.inl (by decide +kernel)⟩
  rcases (garbage_never_silent namelessLib archX8664 _ _ read unknown).1 with
    ⟨exits, _⟩ | ⟨parsed, parses, _, resolved, reports, resolves, some_⟩
  · exact absurd exits (by decide +kernel)
  · exact ⟨parsed, resolved, reports, parses, resolves, some_⟩

def foreignLine : Text := "@".toList

def foreignStatement : Statement :=
  { Statement.zero with
    line := .error { errorStart := foreignLine, errorMsg := .unexpectToken }
    textNr := 1, codeNr := 1, lineStart := foreignLine, lineLen := 1 }

theorem foreign_alone (lib : Libseccomp) (localArch : Word) :
    ProperAlone lib localArch foreignLine foreignStatement where
  parsed := ⟨[], rfl⟩
  filled := nofun
  noLabel := rfl

/-- One unknown character in front of too many statements: no error line is recorded. -/
theorem foreign_line_exit :
    sourceLines (unixFile (foreignLine :: List.replicate 4096 returnAllow)) =
        .ok (foreignLine :: List.replicate 4096 returnAllow) ∧
      ((initScanner (foreignLine :: List.replicate 4096 returnAllow)).token 0).type = .unknown ∧
      parser namelessLib archX8664 (foreignLine :: List.replicate 4096 returnAllow) =
        some (.error .statementOverflow) := by
  have calm : (initScanner (foreignLine :: List.replicate 4096 returnAllow)).Calm := by
    have at_ : OnAllow 1
        (scanToken (initScanner (foreignLine :: List.replicate 4096 returnAllow))).2 := by
      have step : (scanToken (initScanner (foreignLine :: List.replicate 4096 returnAllow))).2 =
          { rest := some [], lines := List.replicate 4096 returnAllow, lineNr := 1
            unknownCount := 1 } := rfl
      rw [step]
      exact ⟨rfl, fun line member => List.eq_of_mem_replicate member, by simp⟩
    intro n
    cases n with
    | zero => exact Nat.zero_le 5
    | succ n =>
        rw [after_succ, (on_allow_after 1 _ at_ n).counted]
        decide
  refine ⟨?_, rfl, ?_⟩
  · apply plain_lines_read
    · intro line member
      rcases List.mem_cons.mp member with rfl | later
      · exact ⟨by decide, by decide, by decide, by decide, by decide⟩
      · rw [List.eq_of_mem_replicate later]
        exact plain_allow
    · rw [List.length_cons, List.length_replicate]
      decide
    · rw [unix_file_cons, List.length_append, List.length_cons, unix_file_length]
      decide
  · apply overflow_exits namelessLib archX8664 _ calm _ returnAllow allowStatement _
      (return_allow_alone _ _) nofun
    · intro line member
      rcases List.mem_cons.mp member with rfl | later
      · exact ⟨_, foreign_alone _ _⟩
      · rw [List.eq_of_mem_replicate later]
        exact ⟨_, return_allow_alone _ _⟩
    · have last : bpfMaxInsns = 4095 + 1 := rfl
      rw [last, List.getElem?_cons_succ, List.getElem?_replicate]
      rfl

end Ceccomp
