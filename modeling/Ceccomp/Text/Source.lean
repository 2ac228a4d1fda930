import Ceccomp.Text.Statement

/-!
`utils/read_source.c`: what `init_source` makes of the bytes of a file and how
`next_line` cuts them into lines. The buffer behind the bytes is zero.
-/

namespace Ceccomp

def maxLineLen : Nat := 0x180
def maxFileLen : Nat := 0x400000

inductive FileType where
  | unix | windows | macos
  deriving DecidableEq, Repr

def escChar : Char := '\x1b'
def nulChar : Char := '\x00'

/-- The copying loop of `clear_color`: characters from an escape to the next `m` are
left out. -/
def clearLoop : Bool → Text → Text
  | _, [] => []
  | false, c :: rest => if c = escChar then clearLoop true rest else c :: clearLoop false rest
  | true, c :: rest => if c = 'm' then clearLoop false rest else clearLoop true rest

/-- `clear_color`: what was left out is filled up with zeros at the end. -/
def clearColor (text : Text) : Text :=
  if text.contains escChar then
    let kept := clearLoop false text
    kept ++ List.replicate (text.length - kept.length) nulChar
  else text

def detectFileType (source : Text) : Except Message (FileType × Char) :=
  match source.idxOf? '\n' with
  | some lineBreak =>
      if lineBreak ≠ 0 ∧ source[lineBreak - 1]? = some '\r' then .ok (.windows, '\n')
      else .ok (.unix, '\n')
  | none => if source.contains '\r' then .ok (.macos, '\r') else .error .foundSusNoLf

/-- A line with its line break, put behind what was processed before. On Windows the
break is moved one character forward, whatever stands there. -/
def closeLine (fileType : FileType) (done line : Text) : Text :=
  match fileType with
  | .windows =>
      if line = [] then done.dropLast ++ ['\n'] ++ clearColor [nulChar]
      else done ++ clearColor (line.dropLast ++ ['\n', nulChar])
  | .unix | .macos => done ++ clearColor (line ++ ['\n'])

/-- The loop of `process_source`: `done` is what was processed already, `lineNr` the
number of the line that starts at the rest. -/
def processLoop (fileType : FileType) (lf : Char) :
    Nat → Text → Nat → Text → Except Message (Text × Nat)
  | 0, done, lineNr, rest => .ok (done ++ rest, lineNr)
  | fuel + 1, done, lineNr, rest =>
      match (rest.take maxLineLen).idxOf? lf with
      | some lineBreak =>
          processLoop fileType lf fuel (closeLine fileType done (rest.take lineBreak)) (lineNr + 1)
            (rest.drop (lineBreak + 1))
      | none =>
          if maxLineLen ≤ rest.length then .error .foundSusLine
          else if lineNr ≥ 4 * bpfMaxInsns then .error .linesTooMany
          else .ok (done ++ clearColor rest, lineNr)

def initSource (file : Text) : Except Message Text :=
  if file.length > maxFileLen then .error .fileTooLarge
  else if file.contains nulChar then .error .foundSusZero
  else
    match detectFileType file with
    | .error message => .error message
    | .ok (fileType, lf) => (processLoop fileType lf (file.length + 1) [] 1 file).map Prod.fst

/-- `next_line` until it returns `NULL`; the zeros behind a line break are skipped. -/
def nextLines : Nat → Text → List Text
  | 0, _ => []
  | fuel + 1, source =>
      match source with
      | [] => []
      | _ :: _ =>
          match source.idxOf? '\n' with
          | none => [source]
          | some lineBreak =>
              source.take lineBreak ::
                nextLines fuel ((source.drop (lineBreak + 1)).dropWhile (· == nulChar))

/-- The lines the scanner gets to see. -/
def sourceLines (file : Text) : Except Message (List Text) :=
  (initSource file).map fun source => nextLines source.length source

theorem clear_loop_sublist (inside : Bool) (text : Text) :
    (clearLoop inside text).Sublist text := by
  induction text generalizing inside with
  | nil => cases inside <;> exact .slnil
  | cons c rest ih =>
      cases inside with
      | false =>
          unfold clearLoop
          split
          · exact (ih true).cons c
          · exact (ih false).cons_cons c
      | true =>
          unfold clearLoop
          split
          · exact (ih false).cons c
          · exact (ih true).cons c

theorem clear_color_breaks (text : Text) : (clearColor text).count '\n' ≤ text.count '\n' := by
  unfold clearColor
  split
  · rw [List.count_append, List.count_replicate, if_neg (by decide), Nat.add_zero]
    exact (clear_loop_sublist false text).count_le '\n'
  · exact Nat.le_refl _

theorem close_line_breaks (fileType : FileType) (done line : Text) (single : '\n' ∉ line) :
    (closeLine fileType done line).count '\n' ≤ done.count '\n' + 1 := by
  have none : line.count '\n' = 0 := List.count_eq_zero.mpr single
  cases fileType with
  | windows =>
      unfold closeLine
      dsimp only
      split
      · have last := (List.dropLast_sublist done).count_le '\n'
        have cleared := clear_color_breaks [nulChar]
        have nul : List.count '\n' [nulChar] = 0 := by decide
        simp only [List.count_append]
        have one : List.count '\n' ['\n'] = 1 := by decide
        omega
      · have cleared := clear_color_breaks (line.dropLast ++ ['\n', nulChar])
        have dropped := (List.dropLast_sublist line).count_le '\n'
        have one : List.count '\n' ['\n', nulChar] = 1 := by decide
        simp only [List.count_append] at cleared ⊢
        omega
  | unix | macos =>
      have cleared := clear_color_breaks (line ++ ['\n'])
      have one : List.count '\n' ['\n'] = 1 := by decide
      simp only [closeLine, List.count_append] at cleared ⊢
      omega

theorem break_split (lf : Char) (text : Text) (bound lineBreak : Nat)
    (found : (text.take bound).idxOf? lf = some lineBreak) :
    lf ∉ text.take lineBreak ∧ text = text.take lineBreak ++ lf :: text.drop (lineBreak + 1) := by
  obtain ⟨inside, at_, before⟩ := List.idxOf?_eq_some_iff.mp found
  rw [List.length_take] at inside
  rw [List.getElem_take] at at_
  constructor
  · intro member
    obtain ⟨idx, small, same⟩ := List.mem_iff_getElem.mp member
    rw [List.length_take] at small
    have there := before idx (by omega)
    rw [List.getElem_take] at there same
    exact there same
  · conv => lhs; rw [← List.take_append_drop lineBreak text]
    rw [List.drop_eq_getElem_cons (by omega), at_]

theorem process_loop_breaks (fileType : FileType) (lf : Char) (fuel : Nat) (done : Text)
    (lineNr : Nat) (rest : Text) (enough : rest.length < fuel)
    (breaks : lf = '\n' ∨ '\n' ∉ rest) (counted : done.count '\n' < lineNr) (source : Text)
    (last : Nat) (processed : processLoop fileType lf fuel done lineNr rest = .ok (source, last)) :
    source.count '\n' < 4 * bpfMaxInsns := by
  induction fuel generalizing done lineNr rest with
  | zero => omega
  | succ fuel ih =>
      unfold processLoop at processed
      cases found : (rest.take maxLineLen).idxOf? lf with
      | some lineBreak =>
          simp only [found] at processed
          obtain ⟨before, split⟩ := break_split lf rest maxLineLen lineBreak found
          have short : (rest.drop (lineBreak + 1)).length < rest.length := by
            conv => rhs; rw [split]
            simp only [List.length_append, List.length_cons]
            omega
          have single : '\n' ∉ rest.take lineBreak := by
            rcases breaks with rfl | absent
            · exact before
            · exact fun member => absent (List.mem_of_mem_take member)
          refine ih _ _ _ (by omega) ?_ ?_ processed
          · exact breaks.imp_right fun absent member => absent (List.mem_of_mem_drop member)
          · have := close_line_breaks fileType done _ single
            omega
      | none =>
          simp only [found] at processed
          split at processed
          · cases processed
          · next small =>
              split at processed
              · cases processed
              · next few =>
                  simp only [Except.ok.injEq, Prod.mk.injEq] at processed
                  have whole : rest.take maxLineLen = rest := List.take_of_length_le (by omega)
                  have absent : '\n' ∉ rest := by
                    rcases breaks with rfl | absent
                    · rw [whole] at found
                      exact List.idxOf?_eq_none_iff.mp found
                    · exact absent
                  have cleared := clear_color_breaks rest
                  have none := List.count_eq_zero.mpr absent
                  rw [← processed.1, List.count_append]
                  omega

theorem next_lines_cut (source : Text) (lineBreak : Nat)
    (found : source.idxOf? '\n' = some lineBreak) :
    ((source.drop (lineBreak + 1)).dropWhile (· == nulChar)).count '\n' + 1 ≤ source.count '\n' := by
  have skipped := (List.dropWhile_sublist (· == nulChar)
    (l := source.drop (lineBreak + 1))).count_le '\n'
  obtain ⟨inside, at_, _⟩ := List.idxOf?_eq_some_iff.mp found
  have counted : source.count '\n' =
      (source.take lineBreak).count '\n' + (1 + (source.drop (lineBreak + 1)).count '\n') := by
    conv => lhs; rw [← List.take_append_drop lineBreak source]
    rw [List.count_append, List.drop_eq_getElem_cons inside, List.count_cons, at_]
    simp [Nat.add_comm]
  omega

theorem next_lines_length (fuel : Nat) (source : Text) :
    (nextLines fuel source).length ≤ source.count '\n' + 1 := by
  induction fuel generalizing source with
  | zero => simp [nextLines]
  | succ fuel ih =>
      unfold nextLines
      split
      · simp
      · next head tail =>
          cases found : (head :: tail).idxOf? '\n' with
          | none => simp
          | some lineBreak =>
              have later := ih (((head :: tail).drop (lineBreak + 1)).dropWhile (· == nulChar))
              have cut := next_lines_cut (head :: tail) lineBreak found
              simp only [List.length_cons]
              omega

theorem detected_breaks (file : Text) (fileType : FileType) (lf : Char)
    (detected : detectFileType file = .ok (fileType, lf)) : lf = '\n' ∨ '\n' ∉ file := by
  unfold detectFileType at detected
  cases found : file.idxOf? '\n' with
  | some lineBreak =>
      simp only [found] at detected
      split at detected <;> cases detected <;> exact Or.inl rfl
  | none =>
      exact Or.inr (List.idxOf?_eq_none_iff.mp found)

theorem source_lines_length (file : Text) (lines : List Text)
    (read : sourceLines file = .ok lines) : lines.length ≤ 4 * bpfMaxInsns := by
  unfold sourceLines at read
  cases init : initSource file with
  | error message => rw [init] at read; cases read
  | ok source =>
      rw [init] at read
      simp only [Except.map, Except.ok.injEq] at read
      subst read
      have few : source.count '\n' < 4 * bpfMaxInsns := by
        unfold initSource at init
        split at init
        · cases init
        · split at init
          · cases init
          · cases detected : detectFileType file with
            | error message => rw [detected] at init; cases init
            | ok type =>
                rw [detected] at init
                cases processed : processLoop type.1 type.2 (file.length + 1) [] 1 file with
                | error message => simp [processed, Except.map] at init
                | ok result =>
                    simp only [processed, Except.map, Except.ok.injEq] at init
                    subst init
                    exact process_loop_breaks type.1 type.2 _ [] 1 file (by omega)
                      (detected_breaks file type.1 type.2 detected) (by simp) result.1 result.2 processed
      have := next_lines_length source.length source
      omega

end Ceccomp
