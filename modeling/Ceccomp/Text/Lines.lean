import Mathlib.Data.List.Forall2
import Ceccomp.Text.Source

/-!
What the scanner gets to see of a file: its physical lines without the spans that
start at an escape. Lines whose break is inside such a span, unterminated lines with
an escape, and lines of a CRLF file that end otherwise come out differently.
-/

namespace Ceccomp

/-- The character that ends the lines of a file. -/
def breakChar (file : Text) : Char := if file.contains '\n' then '\n' else '\r'

/-- The lines that end with a break, without it. -/
def terminatedLines (lf : Char) (text : Text) : List Text := (text.splitOn lf).dropLast

/-- What stands behind the last break. -/
def unterminated (lf : Char) (text : Text) : Text := ((text.splitOn lf).getLast?).getD []

def physicalLines (file : Text) : List Text :=
  terminatedLines (breakChar file) file ++
    if unterminated (breakChar file) file = [] then [] else [unterminated (breakChar file) file]

/-- The text without every span from an escape to the next `m`, or to the end. -/
def withoutSpans (text : Text) : Text :=
  match text with
  | [] => []
  | c :: rest =>
      if c = escChar then withoutSpans ((rest.dropWhile (· ≠ 'm')).drop 1)
      else c :: withoutSpans rest
termination_by text.length
decreasing_by
  · have dropped := (List.dropWhile_sublist (· ≠ 'm') (l := rest)).length_le
    simp only [List.length_drop, List.length_cons]
    omega
  · simp

def Truncated (text : Text) : Prop :=
  ∃ before after, text = before ++ escChar :: after ∧ 'm' ∉ after

/-- What the scanner may see of a line: a carriage return in front of the break is
part of it or not. -/
def Shows (line handed : Text) : Prop :=
  handed = withoutSpans line ∨ (line.getLast? = some '\r' ∧ handed = withoutSpans line.dropLast)

def spanOpen : Bool → Text → Bool
  | inside, [] => inside
  | false, c :: rest => if c = escChar then spanOpen true rest else spanOpen false rest
  | true, c :: rest => if c = 'm' then spanOpen false rest else spanOpen true rest

theorem clear_loop_append (inside : Bool) (first second : Text) :
    clearLoop inside (first ++ second) =
      clearLoop inside first ++ clearLoop (spanOpen inside first) second := by
  induction first generalizing inside with
  | nil => cases inside <;> simp [clearLoop, spanOpen]
  | cons c rest ih =>
      cases inside with
      | false =>
          simp only [List.cons_append, clearLoop, spanOpen]
          split
          · exact ih true
          · rw [ih false, List.cons_append]
      | true =>
          simp only [List.cons_append, clearLoop, spanOpen]
          split
          · exact ih false
          · exact ih true

theorem clear_loop_inside (text : Text) :
    clearLoop true text = clearLoop false ((text.dropWhile (· ≠ 'm')).drop 1) := by
  induction text with
  | nil => rfl
  | cons c rest ih =>
      by_cases m : c = 'm'
      · subst m
        rfl
      · simp only [clearLoop, m, if_false, ih]
        simp [m]

theorem clear_loop_spans (text : Text) : clearLoop false text = withoutSpans text := by
  induction text using withoutSpans.induct with
  | case1 =>
      rw [withoutSpans]
      rfl
  | case2 rest ih => rw [withoutSpans, if_pos rfl, clearLoop, if_pos rfl, clear_loop_inside, ih]
  | case3 c rest other ih => rw [withoutSpans, if_neg other, clearLoop, if_neg other, ih]

theorem span_open_true (text : Text) (closed : 'm' ∉ text) : spanOpen true text = true := by
  induction text with
  | nil => rfl
  | cons c rest ih =>
      rw [List.mem_cons, not_or] at closed
      rw [spanOpen, if_neg (Ne.symm closed.1), ih closed.2]

theorem clear_loop_lost (text : Text) (closed : 'm' ∉ text) : clearLoop true text = [] := by
  induction text with
  | nil => rfl
  | cons c rest ih =>
      rw [List.mem_cons, not_or] at closed
      rw [clearLoop, if_neg (Ne.symm closed.1), ih closed.2]

theorem span_open_append (inside : Bool) (first second : Text) :
    spanOpen inside (first ++ second) = spanOpen (spanOpen inside first) second := by
  induction first generalizing inside with
  | nil => cases inside <;> simp [spanOpen]
  | cons c rest ih =>
      cases inside <;> simp only [List.cons_append, spanOpen] <;> split <;> apply ih

theorem span_open_cases (inside : Bool) (text : Text) (opened : spanOpen inside text = true) :
    Truncated text ∨ (inside = true ∧ 'm' ∉ text) := by
  induction text generalizing inside with
  | nil => exact Or.inr ⟨opened, by simp⟩
  | cons c rest ih =>
      have longer (short : Truncated rest) : Truncated (c :: rest) := by
        obtain ⟨before, after, rfl, closed⟩ := short
        exact ⟨c :: before, after, rfl, closed⟩
      cases inside with
      | false =>
          rw [spanOpen] at opened
          split at opened
          · next esc =>
              rcases ih true opened with short | ⟨_, closed⟩
              · exact Or.inl (longer short)
              · exact Or.inl ⟨[], rest, by rw [esc]; rfl, closed⟩
          · rcases ih false opened with short | ⟨same, _⟩
            · exact Or.inl (longer short)
            · cases same
      | true =>
          rw [spanOpen] at opened
          split at opened
          · rcases ih false opened with short | ⟨same, _⟩
            · exact Or.inl (longer short)
            · cases same
          · next other =>
              rcases ih true opened with short | ⟨_, closed⟩
              · exact Or.inl (longer short)
              · exact Or.inr ⟨rfl, by simp [Ne.symm other, closed]⟩

theorem span_open_iff (text : Text) : spanOpen false text = true ↔ Truncated text := by
  constructor
  · intro opened
    exact (span_open_cases false text opened).resolve_right nofun
  · rintro ⟨before, after, rfl, closed⟩
    rw [span_open_append]
    cases spanOpen false before with
    | false => rw [spanOpen, if_pos rfl, span_open_true after closed]
    | true => rw [spanOpen, if_neg (by decide), span_open_true after closed]

instance (text : Text) : Decidable (Truncated text) := decidable_of_iff _ (span_open_iff text)

theorem clear_loop_plain (text : Text) (plain : escChar ∉ text) : clearLoop false text = text := by
  induction text with
  | nil => rfl
  | cons c rest ih =>
      rw [List.mem_cons, not_or] at plain
      rw [clearLoop, if_neg (Ne.symm plain.1), ih plain.2]

theorem clear_color_padded (text : Text) :
    clearColor text = clearLoop false text ++
      List.replicate (text.length - (clearLoop false text).length) nulChar := by
  unfold clearColor
  split
  · rfl
  · next plain =>
      have kept := clear_loop_plain text (by simpa using plain)
      rw [kept, Nat.sub_self, List.replicate_zero, List.append_nil]

theorem terminated_cons (lf : Char) (line rest : Text) (single : lf ∉ line) :
    terminatedLines lf (line ++ lf :: rest) = line :: terminatedLines lf rest ∧
      unterminated lf (line ++ lf :: rest) = unterminated lf rest := by
  have parts := List.splitOn_append_cons_self_of_not_mem single rest
  obtain ⟨first, more, others⟩ := List.exists_cons_of_ne_nil (List.splitOn_ne_nil lf rest)
  unfold terminatedLines unterminated
  rw [parts, others]
  exact ⟨rfl, by rw [List.getLast?_cons_cons]⟩

theorem terminated_none (lf : Char) (text : Text) (absent : lf ∉ text) :
    terminatedLines lf text = [] ∧ unterminated lf text = text := by
  unfold terminatedLines unterminated
  rw [List.splitOn_eq_singleton absent]
  exact ⟨rfl, rfl⟩

theorem process_loop_lines (fileType : FileType) (lf : Char) (fuel : Nat) (done : Text)
    (lineNr : Nat) (rest : Text) (enough : rest.length < fuel) (source : Text) (last : Nat)
    (processed : processLoop fileType lf fuel done lineNr rest = .ok (source, last)) :
    source = (terminatedLines lf rest).foldl (closeLine fileType) done ++
      clearColor (unterminated lf rest) := by
  induction fuel generalizing done lineNr rest with
  | zero => omega
  | succ fuel ih =>
      unfold processLoop at processed
      cases found : (rest.take maxLineLen).idxOf? lf with
      | some lineBreak =>
          -- the part up to the break is a line of the file, closed on its own
          simp only [found] at processed
          obtain ⟨single, split⟩ := break_split lf rest maxLineLen lineBreak found
          have short : (rest.drop (lineBreak + 1)).length < rest.length := by
            conv => rhs; rw [split]
            simp only [List.length_append, List.length_cons]
            omega
          have same := ih _ _ _ (by omega) processed
          obtain ⟨lines, behind⟩ :=
            terminated_cons lf (rest.take lineBreak) (rest.drop (lineBreak + 1)) single
          rw [← split] at lines behind
          rw [same, lines, behind, List.foldl_cons]
      | none =>
          simp only [found] at processed
          split at processed
          · cases processed
          · split at processed
            · cases processed
            · next small _ =>
                simp only [Except.ok.injEq, Prod.mk.injEq] at processed
                have whole : rest.take maxLineLen = rest := List.take_of_length_le (by omega)
                rw [whole] at found
                obtain ⟨lines, behind⟩ :=
                  terminated_none lf rest (List.idxOf?_eq_none_iff.mp found)
                rw [lines, behind, ← processed.1]
                rfl

/-- The characters of a terminated line that `process_source` keeps in front of its break. -/
def lineBody (fileType : FileType) (line : Text) : Text :=
  match fileType with
  | .windows => line.dropLast
  | .unix | .macos => line

def pack (blocks : List (Text × Nat)) : Text :=
  blocks.flatMap fun block => block.1 ++ '\n' :: List.replicate block.2 nulChar

theorem pack_snoc (blocks : List (Text × Nat)) (text : Text) (zeros : Nat) :
    pack (blocks ++ [(text, zeros)]) =
      pack blocks ++ (text ++ '\n' :: List.replicate zeros nulChar) := by
  simp [pack]

theorem clear_color_closed (body breaks : Text) (closed : spanOpen false body = false)
    (plain : escChar ∉ breaks) :
    ∃ zeros, clearColor (body ++ breaks) =
      withoutSpans body ++ breaks ++ List.replicate zeros nulChar := by
  have kept : clearLoop false (body ++ breaks) = withoutSpans body ++ breaks := by
    rw [clear_loop_append, closed, clear_loop_plain breaks plain, clear_loop_spans]
  exact ⟨_, by rw [clear_color_padded, kept]⟩

theorem close_line_whole (fileType : FileType) (done line : Text)
    (closed : spanOpen false (lineBody fileType line) = false) :
    ∃ zeros, (fileType = .windows → 0 < zeros) ∧
      closeLine fileType done line =
        (if fileType = .windows ∧ line = [] then done.dropLast else done) ++
          (withoutSpans (lineBody fileType line) ++ '\n' :: List.replicate zeros nulChar) := by
  cases fileType with
  | windows =>
      by_cases empty : line = []
      · subst empty
        refine ⟨1, fun _ => by omega, ?_⟩
        simp [closeLine, clear_color_padded, clearLoop, lineBody, withoutSpans, nulChar, escChar]
      · obtain ⟨zeros, cleared⟩ :=
          clear_color_closed line.dropLast ['\n', nulChar] closed (by decide)
        refine ⟨zeros + 1, fun _ => by omega, ?_⟩
        simp only [closeLine, empty, and_false, if_false, cleared, lineBody]
        simp [List.replicate_succ]
  | unix | macos =>
      obtain ⟨zeros, cleared⟩ := clear_color_closed line ['\n'] closed (by decide)
      refine ⟨zeros, (fun windows => by cases windows), ?_⟩
      simp [closeLine, cleared, lineBody]

theorem pack_drop_last (blocks : List (Text × Nat)) (text : Text) (zeros : Nat) :
    (pack (blocks ++ [(text, zeros + 1)])).dropLast = pack (blocks ++ [(text, zeros)]) := by
  simp only [pack_snoc, List.replicate_succ', ← List.cons_append, ← List.append_assoc]
  rw [List.dropLast_concat]

theorem closed_lines_packed (fileType : FileType) (lines : List Text)
    (closed : ∀ line ∈ lines, spanOpen false (lineBody fileType line) = false)
    (blocks : List (Text × Nat))
    (start : fileType = .windows → lines.head? ≠ some [] ∨
      ∃ before text zeros, blocks = before ++ [(text, zeros + 1)]) :
    ∃ packed, packed.map Prod.fst =
        blocks.map Prod.fst ++ lines.map (fun line => withoutSpans (lineBody fileType line)) ∧
      lines.foldl (closeLine fileType) (pack blocks) = pack packed := by
  induction lines generalizing blocks with
  | nil => exact ⟨blocks, by simp, rfl⟩
  | cons line rest ih =>
      have later := fun other (member : other ∈ rest) => closed other (List.mem_cons_of_mem line member)
      obtain ⟨zeros, positive, same⟩ := close_line_whole fileType (pack blocks) line
        (closed line List.mem_cons_self)
      have next (before : List (Text × Nat)) : fileType = .windows → rest.head? ≠ some [] ∨
          ∃ first text more, before ++ [(withoutSpans (lineBody fileType line), zeros)] =
            first ++ [(text, more + 1)] := by
        intro windows
        refine Or.inr ⟨before, withoutSpans (lineBody fileType line), zeros - 1, ?_⟩
        have some_ := positive windows
        rw [Nat.sub_add_cancel some_]
      rw [List.foldl_cons, same]
      by_cases empty : fileType = .windows ∧ line = []
      · obtain ⟨before, text, more, rfl⟩ := (start empty.1).resolve_left (by simp [empty.2])
        obtain ⟨packed, texts, folded⟩ := ih later
          (before ++ [(text, more)] ++ [(withoutSpans (lineBody fileType line), zeros)]) (next _)
        refine ⟨packed, ?_, ?_⟩
        · rw [texts]
          simp
        · rw [if_pos empty, pack_drop_last, ← pack_snoc, folded]
      · obtain ⟨packed, texts, folded⟩ := ih later
          (blocks ++ [(withoutSpans (lineBody fileType line), zeros)]) (next _)
        refine ⟨packed, ?_, ?_⟩
        · rw [texts]
          simp
        · rw [if_neg empty, ← pack_snoc, folded]

theorem drop_zeros (zeros : Nat) (text : Text) (start : text.head? ≠ some nulChar) :
    (List.replicate zeros nulChar ++ text).dropWhile (· == nulChar) = text := by
  induction zeros with
  | zero =>
      cases text with
      | nil => rfl
      | cons c rest =>
          have other : c ≠ nulChar := by simpa using start
          simp [other]
  | succ zeros ih => simpa [List.replicate_succ] using ih

theorem pack_head (blocks : List (Text × Nat)) (tail : Text)
    (single : ∀ block ∈ blocks, '\n' ∉ block.1 ∧ nulChar ∉ block.1) (plain : nulChar ∉ tail) :
    (pack blocks ++ tail).head? ≠ some nulChar := by
  intro start
  cases blocks with
  | nil => exact plain (List.mem_of_head? start)
  | cons block blocks =>
      obtain ⟨text, zeros⟩ := block
      have noZero := (single (text, zeros) List.mem_cons_self).2
      cases text with
      | nil => simp [pack, nulChar] at start
      | cons c rest =>
          have same : c = nulChar := by simpa [pack] using start
          exact noZero (same ▸ List.mem_cons_self)

theorem next_lines_packed (blocks : List (Text × Nat)) (tail : Text)
    (single : ∀ block ∈ blocks, '\n' ∉ block.1 ∧ nulChar ∉ block.1)
    (plain : '\n' ∉ tail ∧ nulChar ∉ tail) (fuel : Nat)
    (enough : (pack blocks ++ tail).length ≤ fuel) :
    nextLines fuel (pack blocks ++ tail) =
      blocks.map Prod.fst ++ if tail = [] then [] else [tail] := by
  induction blocks generalizing fuel with
  | nil =>
      cases tail with
      | nil => cases fuel <;> simp [pack, nextLines]
      | cons c rest =>
          cases fuel with
          | zero => simp [pack] at enough
          | succ fuel =>
              have absent : (c :: rest).idxOf? '\n' = none :=
                List.idxOf?_eq_none_iff.mpr plain.1
              simp [pack, nextLines, absent]
  | cons block blocks ih =>
      obtain ⟨text, zeros⟩ := block
      obtain ⟨noBreak, noZero⟩ := single (text, zeros) List.mem_cons_self
      have whole : pack ((text, zeros) :: blocks) ++ tail =
          text ++ '\n' :: (List.replicate zeros nulChar ++ (pack blocks ++ tail)) := by
        simp [pack]
      cases fuel with
      | zero =>
          rw [whole] at enough
          simp at enough
      | succ fuel =>
          -- the first break is that of the first line, and the zeros behind it are skipped
          have found : (pack ((text, zeros) :: blocks) ++ tail).idxOf? '\n' = some text.length := by
            rw [whole, List.idxOf?_eq_some_iff]
            refine ⟨by simp, by simp, fun j less same => ?_⟩
            rw [List.getElem_append_left less] at same
            exact noBreak (same ▸ List.getElem_mem less)
          have front : (pack ((text, zeros) :: blocks) ++ tail).take text.length = text := by
            rw [whole, List.take_left]
          have behind : ((pack ((text, zeros) :: blocks) ++ tail).drop (text.length + 1)).dropWhile
              (· == nulChar) = pack blocks ++ tail := by
            rw [whole, ← List.drop_drop, List.drop_left, List.drop_one, List.tail_cons]
            exact drop_zeros zeros _ (pack_head blocks tail
              (fun other member => single other (List.mem_cons_of_mem _ member)) plain.2)
          have some_ : pack ((text, zeros) :: blocks) ++ tail ≠ [] := by
            rw [whole]
            simp
          have later := ih (fun other member => single other (List.mem_cons_of_mem _ member)) fuel (by
            rw [whole] at enough
            simp only [List.length_append, List.length_cons, List.length_replicate] at enough ⊢
            omega)
          obtain ⟨c, more, same⟩ := List.exists_cons_of_ne_nil some_
          rw [same] at found front behind ⊢
          simp only [nextLines, found, front, behind, later]
          simp

structure PlainLine (line : Text) : Prop where
  short : line.length < maxLineLen
  single : '\n' ∉ line
  noZero : nulChar ∉ line
  noEscape : escChar ∉ line
  noReturn : '\r' ∉ line

/-- Lines, each with a line feed. -/
def unixFile (lines : List Text) : Text := pack (lines.map fun line => (line, 0))

theorem unix_file_cons (line : Text) (rest : List Text) :
    unixFile (line :: rest) = line ++ '\n' :: unixFile rest := by
  simp [unixFile, pack]

theorem plain_break (line rest : Text) (plain : PlainLine line) (bound : Nat)
    (enough : line.length < bound) :
    ((line ++ '\n' :: rest).take bound).idxOf? '\n' = some line.length := by
  rw [List.idxOf?_eq_some_iff]
  have inside : line.length < ((line ++ '\n' :: rest).take bound).length := by
    rw [List.length_take, List.length_append, List.length_cons]
    omega
  refine ⟨inside, by simp, fun j less same => ?_⟩
  rw [List.getElem_take, List.getElem_append_left less] at same
  exact plain.single (same ▸ List.getElem_mem less)

theorem process_plain (lines : List Text) (fuel : Nat) (done : Text) (lineNr : Nat)
    (plain : ∀ line ∈ lines, PlainLine line) (enough : lines.length < fuel)
    (few : lineNr + lines.length < 4 * bpfMaxInsns) :
    processLoop .unix '\n' fuel done lineNr (unixFile lines) =
      .ok (done ++ unixFile lines, lineNr + lines.length) := by
  induction lines generalizing fuel done lineNr with
  | nil =>
      cases fuel with
      | zero => exact absurd enough (Nat.lt_irrefl 0)
      | succ fuel =>
          have room : ¬ lineNr ≥ 4 * bpfMaxInsns := Nat.not_le.mpr few
          simp [processLoop, unixFile, pack, room, maxLineLen, clearColor]
  | cons line rest ih =>
      cases fuel with
      | zero => exact absurd enough (Nat.not_lt_zero _)
      | succ fuel =>
          obtain ⟨own, others⟩ := List.forall_mem_cons.mp plain
          have closed : clearColor (line ++ ['\n']) = line ++ ['\n'] := by
            unfold clearColor
            rw [if_neg]
            have none_ : escChar ∉ line ++ ['\n'] := by
              rw [List.mem_append, not_or]
              exact ⟨own.noEscape, by decide⟩
            simpa using none_
          have later := ih fuel (done ++ (line ++ ['\n'])) (lineNr + 1) others
            (Nat.lt_of_succ_lt_succ enough) (by rw [List.length_cons] at few; omega)
          rw [unix_file_cons]
          unfold processLoop
          rw [plain_break line _ own maxLineLen own.short]
          dsimp only
          rw [List.take_left, ← List.drop_drop, List.drop_left, List.drop_one, List.tail_cons,
            closeLine, closed, later, List.append_assoc, List.append_assoc, List.length_cons,
            Nat.add_right_comm, Nat.add_assoc]
          rfl

theorem plain_lines_read (first : Text) (rest : List Text)
    (plain : ∀ line ∈ first :: rest, PlainLine line)
    (few : (first :: rest).length + 1 < 4 * bpfMaxInsns)
    (small : (unixFile (first :: rest)).length ≤ maxFileLen) :
    sourceLines (unixFile (first :: rest)) = .ok (first :: rest) := by
  have own := plain first List.mem_cons_self
  have noZero : nulChar ∉ unixFile (first :: rest) := by
    unfold unixFile pack
    rw [List.mem_flatMap]
    rintro ⟨block, member, zero⟩
    obtain ⟨line, inside, rfl⟩ := List.mem_map.mp member
    rw [List.mem_append] at zero
    exact zero.elim (plain line inside).noZero (by simp [nulChar])
  have unix : detectFileType (unixFile (first :: rest)) = .ok (.unix, '\n') := by
    have inside : (first ++ '\n' :: unixFile rest).idxOf? '\n' = some first.length := by
      rw [List.idxOf?_eq_some_iff]
      refine ⟨by simp, by simp, fun j less same => ?_⟩
      rw [List.getElem_append_left less] at same
      exact own.single (same ▸ List.getElem_mem less)
    unfold detectFileType
    rw [unix_file_cons, inside]
    dsimp only
    rw [if_neg]
    rintro ⟨some_, there⟩
    have before : first.length - 1 < first.length := by omega
    rw [List.getElem?_append_left before] at there
    exact own.noReturn (List.mem_of_getElem? there)
  have length : (first :: rest).length < (unixFile (first :: rest)).length + 1 := by
    have each (lines : List Text) : lines.length ≤ (unixFile lines).length := by
      induction lines with
      | nil => exact Nat.le_refl 0
      | cons line rest ih =>
          rw [unix_file_cons, List.length_append, List.length_cons, List.length_cons]
          omega
    -- fuel: each line brings its break at least
    exact Nat.lt_succ_of_le (each _)
  have processed := process_plain (first :: rest) _ [] 1 plain length (by omega)
  have read : initSource (unixFile (first :: rest)) = .ok (unixFile (first :: rest)) := by
    unfold initSource
    rw [if_neg (Nat.not_lt.mpr small), if_neg (by simpa using noZero), unix]
    dsimp only
    rw [processed]
    rfl
  have handed := next_lines_packed ((first :: rest).map fun line => (line, 0)) []
    (fun block member => by
      obtain ⟨line, inside, rfl⟩ := List.mem_map.mp member
      exact ⟨(plain line inside).single, (plain line inside).noZero⟩)
    (by simp) (unixFile (first :: rest)).length (by simp [unixFile])
  unfold sourceLines
  rw [read]
  change Except.ok (nextLines _ (unixFile (first :: rest))) = _
  rw [List.append_nil] at handed
  have same : nextLines (unixFile (first :: rest)).length (unixFile (first :: rest)) = _ := handed
  rw [same, List.map_map, if_pos rfl, List.append_nil]
  exact congrArg Except.ok (List.map_id _)

theorem close_line_open (fileType : FileType) (done line : Text)
    (opened : spanOpen false (lineBody fileType line) = true) :
    ∃ zeros, closeLine fileType done line =
      done ++ withoutSpans (lineBody fileType line) ++ List.replicate (zeros + 1) nulChar := by
  have lost (breaks : Text) (plain : 'm' ∉ breaks) (some_ : breaks ≠ []) :
      ∃ zeros, clearColor (lineBody fileType line ++ breaks) =
        withoutSpans (lineBody fileType line) ++ List.replicate (zeros + 1) nulChar := by
    have kept : clearLoop false (lineBody fileType line ++ breaks) =
        withoutSpans (lineBody fileType line) := by
      rw [clear_loop_append, opened, clear_loop_lost breaks plain, List.append_nil, clear_loop_spans]
    have shorter : (withoutSpans (lineBody fileType line)).length ≤ (lineBody fileType line).length := by
      rw [← clear_loop_spans]
      exact (clear_loop_sublist false _).length_le
    have more := List.length_pos_iff.mpr some_
    refine ⟨(lineBody fileType line ++ breaks).length -
      (withoutSpans (lineBody fileType line)).length - 1, ?_⟩
    rw [clear_color_padded, kept, Nat.sub_add_cancel]
    rw [List.length_append]
    omega
  cases fileType with
  | windows =>
      have some_ : line ≠ [] := by
        rintro rfl
        cases opened
      obtain ⟨zeros, cleared⟩ := lost ['\n', nulChar] (by decide) (by simp)
      refine ⟨zeros, ?_⟩
      simp only [closeLine, some_, if_false]
      rw [show line.dropLast = lineBody .windows line from rfl, cleared, List.append_assoc]
  | unix | macos =>
      obtain ⟨zeros, cleared⟩ := lost ['\n'] (by decide) (by simp)
      exact ⟨zeros, by rw [closeLine, List.append_assoc]; exact congrArg (done ++ ·) cleared⟩

/-- The line breaks of the buffer are those of the lines that end outside a span. -/
structure Closing (fileType : FileType) (done next : Text) (kept : Nat) : Prop where
  breaks : next.count '\n' = done.count '\n' + kept
  last : next.getLast? = some nulChar ∨ (fileType ≠ .windows ∧ next.getLast? = some '\n')

theorem last_zero (text : Text) (zeros : Nat) :
    (text ++ List.replicate (zeros + 1) nulChar).getLast? = some nulChar := by
  rw [List.replicate_succ', ← List.append_assoc, List.getLast?_concat]

theorem close_line_closing (fileType : FileType) (done line : Text) (single : '\n' ∉ line)
    (before : fileType = .windows → done.getLast? ≠ some '\n') :
    Closing fileType done (closeLine fileType done line)
      (if spanOpen false (lineBody fileType line) then 0 else 1) := by
  have noBreak : (withoutSpans (lineBody fileType line)).count '\n' = 0 := by
    rw [List.count_eq_zero, ← clear_loop_spans]
    intro member
    have inBody := (clear_loop_sublist false _).subset member
    cases fileType with
    | windows => exact single (List.dropLast_subset line inBody)
    | unix | macos => exact single inBody
  have zerosCount (zeros : Nat) : (List.replicate zeros nulChar).count '\n' = 0 := by
    rw [List.count_replicate]
    rfl
  cases opened : spanOpen false (lineBody fileType line) with
  | true =>
      obtain ⟨zeros, same⟩ := close_line_open fileType done line opened
      rw [same]
      refine { breaks := ?_, last := Or.inl (last_zero _ zeros) }
      rw [List.count_append, List.count_append, noBreak, zerosCount]
      rfl
  | false =>
      obtain ⟨zeros, positive, same⟩ := close_line_whole fileType done line opened
      rw [same]
      have kept : (if fileType = .windows ∧ line = [] then done.dropLast else done).count '\n' =
          done.count '\n' := by
        split
        · next empty =>
            rcases List.eq_nil_or_concat done with rfl | ⟨front, c, rfl⟩
            · rfl
            · have other := before empty.1
              rw [List.concat_eq_append, List.getLast?_concat] at other
              rw [List.concat_eq_append, List.dropLast_concat, List.count_append,
                List.count_singleton, if_neg (by simpa using other), Nat.add_zero]
        · rfl
      refine { breaks := ?_, last := ?_ }
      · rw [List.count_append, List.count_append, List.count_cons, kept, noBreak, zerosCount]
        rfl
      · cases zeros with
        | succ zeros =>
            refine Or.inl ?_
            rw [← List.singleton_append, ← List.append_assoc, ← List.append_assoc]
            exact last_zero _ zeros
        | zero =>
            refine Or.inr ⟨fun windows => by have := positive windows; omega, ?_⟩
            rw [List.replicate_zero, ← List.append_assoc, List.getLast?_concat]

theorem close_lines_closing (fileType : FileType) (lines : List Text)
    (single : ∀ line ∈ lines, '\n' ∉ line) (done : Text)
    (before : fileType = .windows → done.getLast? ≠ some '\n') :
    (lines.foldl (closeLine fileType) done).count '\n' =
        done.count '\n' + lines.countP (fun line => !spanOpen false (lineBody fileType line)) ∧
      (lines ≠ [] → (lines.foldl (closeLine fileType) done).getLast? = some nulChar ∨
        (lines.foldl (closeLine fileType) done).getLast? = some '\n') := by
  induction lines generalizing done with
  | nil => simp
  | cons line rest ih =>
      have closing := close_line_closing fileType done line (single line List.mem_cons_self) before
      have ready : fileType = .windows → (closeLine fileType done line).getLast? ≠ some '\n' := by
        intro windows same
        rcases closing.last with zero | ⟨other, _⟩
        · rw [zero] at same
          cases same
        · exact other windows
      obtain ⟨breaks, last⟩ :=
        ih (fun other member => single other (List.mem_cons_of_mem line member)) _ ready
      rw [List.foldl_cons]
      refine ⟨?_, fun _ => ?_⟩
      · rw [breaks, closing.breaks, List.countP_cons]
        cases spanOpen false (lineBody fileType line) with
        | true => simp
        | false =>
            simp
            omega
      · by_cases none_ : rest = []
        · subst none_
          rcases closing.last with zero | ⟨_, lf⟩
          · exact Or.inl zero
          · exact Or.inr lf
        · exact last none_

/-- A buffer that yields more lines than it has breaks ends inside the last of them. -/
theorem next_lines_overfull (fuel : Nat) (source : Text)
    (more : (nextLines fuel source).length = source.count '\n' + 1) :
    ∃ c line, source.getLast? = some c ∧ line ∈ nextLines fuel source ∧ c ∈ line ∧ c ≠ '\n' := by
  induction fuel generalizing source with
  | zero => simp [nextLines] at more
  | succ fuel ih =>
      cases source with
      | nil => simp [nextLines] at more
      | cons head tail =>
          cases found : (head :: tail).idxOf? '\n' with
          | none =>
              have last := List.getLast?_eq_some_getLast (List.cons_ne_nil head tail)
              refine ⟨_, head :: tail, last, by simp [nextLines, found],
                List.getLast_mem (List.cons_ne_nil head tail), ?_⟩
              intro same
              exact List.idxOf?_eq_none_iff.mp found (same ▸ List.getLast_mem _)
          | some lineBreak =>
              have cut := next_lines_cut (head :: tail) lineBreak found
              have few := next_lines_length fuel
                (((head :: tail).drop (lineBreak + 1)).dropWhile (· == nulChar))
              simp only [nextLines, found, List.length_cons] at more ⊢
              obtain ⟨c, line, last, member, inside, other⟩ :=
                ih (((head :: tail).drop (lineBreak + 1)).dropWhile (· == nulChar)) (by omega)
              obtain ⟨front, whole⟩ := (List.dropWhile_suffix (· == nulChar)).trans
                (List.drop_suffix (lineBreak + 1) (head :: tail))
              refine ⟨c, line, ?_, List.mem_cons_of_mem _ member, inside, other⟩
              rw [← whole, List.getLast?_append, last]
              rfl

/-- The first line of the file ends in CRLF. -/
def crlfFile (file : Text) : Bool :=
  match terminatedLines '\n' file with
  | [] => false
  | first :: _ => first.getLast? == some '\r'

/-- The line and its break come out of the buffer whole. -/
def WholeLine (crlf : Bool) (line : Text) : Prop :=
  if crlf then
    line = [] ∨ ((line.getLast? = some '\r' ∨ line.getLast? = some escChar) ∧ ¬ Truncated line.dropLast)
  else ¬ Truncated line

instance (crlf : Bool) (line : Text) : Decidable (WholeLine crlf line) := by
  unfold WholeLine
  infer_instance

theorem detected_type (file : Text) (fileType : FileType) (lf : Char)
    (detected : detectFileType file = .ok (fileType, lf)) :
    lf = breakChar file ∧ (fileType = .windows ↔ crlfFile file = true) := by
  unfold detectFileType at detected
  unfold breakChar crlfFile
  cases found : file.idxOf? '\n' with
  | none =>
      have absent := List.idxOf?_eq_none_iff.mp found
      simp only [found] at detected
      rw [(terminated_none '\n' file absent).1, if_neg (by simpa using absent)]
      split at detected
      · cases detected
        exact ⟨rfl, nofun, nofun⟩
      · cases detected
  | some lineBreak =>
      obtain ⟨single, split⟩ := break_split '\n' file file.length lineBreak
        (by rwa [List.take_length])
      have inside : lineBreak < file.length := (List.idxOf?_eq_some_iff.mp found).1
      have first := (terminated_cons '\n' _ (file.drop (lineBreak + 1)) single).1
      rw [← split] at first
      have member : '\n' ∈ file := by
        rw [split]
        simp
      have last : (file.take lineBreak).getLast? =
          if lineBreak = 0 then none else file[lineBreak - 1]? := by
        rw [List.getLast?_take, List.getElem?_eq_getElem (by omega)]
        rfl
      simp only [found] at detected
      rw [first, if_pos (by simpa using member)]
      dsimp only
      rw [last]
      split at detected
      · next crlf =>
          cases detected
          rw [if_neg crlf.1, crlf.2]
          exact ⟨rfl, by decide⟩
      · next other =>
          cases detected
          refine ⟨rfl, nofun, fun same => ?_⟩
          split at same
          · cases same
          · next later => exact absurd ⟨later, by simpa using same⟩ other

theorem part_member (lf : Char) (text part : Text) (member : part ∈ text.splitOn lf) :
    part ⊆ text ∧ lf ∉ part := by
  induction text generalizing part with
  | nil =>
      rw [List.splitOn_nil, List.mem_singleton] at member
      subst member
      exact ⟨List.nil_subset _, List.not_mem_nil⟩
  | cons c rest ih =>
      rw [List.splitOn_cons_eq_if_modifyHead] at member
      split at member
      · rcases List.mem_cons.mp member with rfl | there
        · exact ⟨List.nil_subset _, List.not_mem_nil⟩
        · exact ⟨List.subset_cons_of_subset c (ih part there).1, (ih part there).2⟩
      · next other =>
          obtain ⟨first, more, others⟩ := List.exists_cons_of_ne_nil (List.splitOn_ne_nil lf rest)
          rw [others, List.modifyHead_cons] at member
          rcases List.mem_cons.mp member with rfl | there
          · obtain ⟨within, absent⟩ := ih first (by rw [others]; exact List.mem_cons_self)
            refine ⟨List.cons_subset_cons c within, ?_⟩
            rw [List.mem_cons, not_or]
            exact ⟨fun same => other (by simp [same]), absent⟩
          · obtain ⟨within, absent⟩ := ih part (by rw [others]; exact List.mem_cons_of_mem _ there)
            exact ⟨List.subset_cons_of_subset c within, absent⟩

/-- The pieces of a file that `init_source` accepts, and what becomes of them. -/
structure FileRead (file : Text) (fileType : FileType) (lines : List Text) : Prop where
  windows : fileType = .windows ↔ crlfFile file = true
  noZero : nulChar ∉ file
  noBreak : ∀ part ∈ file.splitOn (breakChar file), '\n' ∉ part
  handed : ∃ source, source = (terminatedLines (breakChar file) file).foldl (closeLine fileType) [] ++
      clearColor (unterminated (breakChar file) file) ∧
    lines = nextLines source.length source

theorem file_read (file : Text) (lines : List Text) (read : sourceLines file = .ok lines) :
    ∃ fileType, FileRead file fileType lines := by
  unfold sourceLines at read
  cases init : initSource file with
  | error message =>
      rw [init] at read
      cases read
  | ok source =>
      rw [init] at read
      simp only [Except.map, Except.ok.injEq] at read
      unfold initSource at init
      split at init
      · cases init
      · split at init
        · cases init
        · next noZero =>
            cases detected : detectFileType file with
            | error message =>
                rw [detected] at init
                cases init
            | ok type =>
                obtain ⟨fileType, lf⟩ := type
                rw [detected] at init
                dsimp only at init
                obtain ⟨rfl, windows⟩ := detected_type file fileType lf detected
                cases processed : processLoop fileType (breakChar file) (file.length + 1) [] 1 file with
                | error message =>
                    rw [processed] at init
                    cases init
                | ok result =>
                    simp only [processed, Except.map, Except.ok.injEq] at init
                    subst init
                    refine ⟨fileType,
                      { windows, noZero := by simpa using noZero, noBreak := ?_, handed := ?_ }⟩
                    · intro part member
                      obtain ⟨within, absent⟩ := part_member _ _ _ member
                      rcases detected_breaks file fileType _ detected with same | none_
                      · exact same ▸ absent
                      · exact fun there => none_ (within there)
                    · exact ⟨result.1, process_loop_lines _ _ _ _ _ _ (by omega) result.1 result.2
                        processed, read.symm⟩

theorem clear_loop_esc (inside : Bool) (text : Text) : escChar ∉ clearLoop inside text := by
  induction text generalizing inside with
  | nil => cases inside <;> simp [clearLoop]
  | cons c rest ih =>
      cases inside with
      | false =>
          rw [clearLoop]
          split
          · exact ih true
          · next other =>
              rw [List.mem_cons, not_or]
              exact ⟨Ne.symm other, ih false⟩
      | true =>
          rw [clearLoop]
          split
          · exact ih false
          · exact ih true

theorem clear_color_esc (text : Text) (esc : escChar ∈ text) :
    (clearColor text).getLast? = some nulChar := by
  have shorter : (clearLoop false text).length < text.length := by
    rcases Nat.lt_or_ge (clearLoop false text).length text.length with less | same
    · exact less
    · have whole := (clear_loop_sublist false text).eq_of_length_le same
      have absent := clear_loop_esc false text
      rw [whole] at absent
      exact absurd esc absent
  obtain ⟨zeros, more⟩ : ∃ zeros, text.length - (clearLoop false text).length = zeros + 1 :=
    ⟨text.length - (clearLoop false text).length - 1, by omega⟩
  rw [clear_color_padded, more]
  exact last_zero _ zeros

theorem forall_right_member {α β : Type} {R : α → β → Prop} {first : List α} {second : List β}
    (related : List.Forall₂ R first second) (b : β) (member : b ∈ second) :
    ∃ a ∈ first, R a b := by
  induction related with
  | nil => cases member
  | @cons a c first second same rest ih =>
      rcases List.mem_cons.mp member with rfl | later
      · exact ⟨a, List.mem_cons_self, same⟩
      · obtain ⟨found, there, holds⟩ := ih later
        exact ⟨found, List.mem_cons_of_mem a there, holds⟩

theorem forall_mapped {α β : Type} {R : α → β → Prop} (f : α → β) (front : List α)
    {last : List α} {lastImage : List β} (behind : List.Forall₂ R last lastImage) :
    List.Forall₂ R (front ++ last) (front.map f ++ lastImage) ↔ ∀ a ∈ front, R a (f a) := by
  induction front with
  | nil => simpa using behind
  | cons a front ih =>
      rw [List.map_cons, List.cons_append, List.cons_append, List.forall₂_cons, ih,
        List.forall_mem_cons]

section Reading

variable {file : Text} {fileType : FileType} {lines : List Text}
variable (reading : FileRead file fileType lines)

include reading

theorem line_member (line : Text) (member : line ∈ terminatedLines (breakChar file) file) :
    '\n' ∉ line ∧ nulChar ∉ line := by
  have part := List.dropLast_subset _ member
  exact ⟨reading.noBreak line part, fun there => reading.noZero ((part_member _ _ _ part).1 there)⟩

theorem unterminated_member :
    '\n' ∉ unterminated (breakChar file) file ∧ nulChar ∉ unterminated (breakChar file) file := by
  have part : unterminated (breakChar file) file ∈ file.splitOn (breakChar file) := by
    unfold unterminated
    rw [List.getLast?_eq_some_getLast (List.splitOn_ne_nil _ _)]
    exact List.getLast_mem _
  exact ⟨reading.noBreak _ part, fun there => reading.noZero ((part_member _ _ _ part).1 there)⟩

omit reading in
theorem spans_member (text : Text) (plain : '\n' ∉ text ∧ nulChar ∉ text) :
    '\n' ∉ withoutSpans text ∧ nulChar ∉ withoutSpans text := by
  have within := (clear_loop_sublist false text).subset
  rw [clear_loop_spans] at within
  exact ⟨fun there => plain.1 (within there), fun there => plain.2 (within there)⟩

/-- If every line ends outside a span and the rest has no escape, the lines come out
one by one. -/
theorem lines_handed
    (closed : ∀ line ∈ terminatedLines (breakChar file) file,
      spanOpen false (lineBody fileType line) = false)
    (plain : escChar ∉ unterminated (breakChar file) file)
    (start : fileType = .windows → (terminatedLines (breakChar file) file).head? ≠ some []) :
    lines = (terminatedLines (breakChar file) file).map
        (fun line => withoutSpans (lineBody fileType line)) ++
      if unterminated (breakChar file) file = [] then [] else [unterminated (breakChar file) file] := by
  obtain ⟨packed, texts, folded⟩ := closed_lines_packed fileType _ closed []
    (fun windows => Or.inl (start windows))
  obtain ⟨source, same, rfl⟩ := reading.handed
  have tail : clearColor (unterminated (breakChar file) file) = unterminated (breakChar file) file := by
    simp [clearColor, plain]
  rw [show pack [] = [] from rfl] at folded
  rw [folded, tail] at same
  rw [same, next_lines_packed packed _ ?_ (unterminated_member reading) _ (Nat.le_refl _), texts]
  · rfl
  · intro block member
    have text : block.1 ∈ packed.map Prod.fst := List.mem_map_of_mem member
    rw [texts, List.map_nil, List.nil_append] at text
    obtain ⟨line, there, same⟩ := List.mem_map.mp text
    rw [← same]
    apply spans_member
    obtain ⟨noBreak, noZero⟩ := line_member reading line there
    cases fileType with
    | windows =>
        exact ⟨fun inside => noBreak (List.dropLast_subset line inside),
          fun inside => noZero (List.dropLast_subset line inside)⟩
    | unix | macos => exact ⟨noBreak, noZero⟩

theorem first_line_filled (windows : fileType = .windows) :
    (terminatedLines (breakChar file) file).head? ≠ some [] := by
  have crlf := reading.windows.mp windows
  unfold crlfFile at crlf
  split at crlf
  · cases crlf
  · next first more parts =>
      have lf : breakChar file = '\n' := by
        unfold breakChar
        rw [if_pos]
        by_contra absent
        rw [(terminated_none '\n' file (by simpa using absent)).1] at parts
        cases parts
      rw [lf, parts]
      rintro ⟨⟩
      cases crlf

omit reading in
/-- A line that ends outside a span is shown exactly if its break was taken off right. -/
theorem line_shown (windows : fileType = .windows ↔ crlfFile file = true) (line : Text)
    (closed : spanOpen false (lineBody fileType line) = false) :
    Shows line (withoutSpans (lineBody fileType line)) ↔ WholeLine (crlfFile file) line := by
  unfold WholeLine
  cases crlf : crlfFile file with
  | false =>
      have body : lineBody fileType line = line := by
        cases fileType with
        | windows => exact absurd (windows.mp rfl) (by simp [crlf])
        | unix | macos => rfl
      rw [body] at closed ⊢
      have whole : ¬ Truncated line := by
        rw [← span_open_iff, closed]
        decide
      simp [whole, Shows]
  | true =>
      obtain rfl := windows.mpr crlf
      have whole : ¬ Truncated line.dropLast := by
        rw [← span_open_iff, show line.dropLast = lineBody .windows line from rfl, closed]
        decide
      rcases List.eq_nil_or_concat line with rfl | ⟨front, c, rfl⟩
      · simp [Shows, lineBody]
      · rw [List.concat_eq_append] at closed whole ⊢
        simp only [lineBody, List.dropLast_concat] at closed whole ⊢
        have joined : withoutSpans (front ++ [c]) =
            withoutSpans front ++ if c = escChar then [] else [c] := by
          rw [← clear_loop_spans, clear_loop_append, closed, clear_loop_spans]
          simp only [clearLoop]
        simp only [Shows, joined, List.getLast?_concat, List.dropLast_concat, whole]
        by_cases esc : c = escChar <;> simp [esc]

theorem handed_whole (shown : List.Forall₂ Shows (physicalLines file) lines) :
    (∀ line ∈ terminatedLines (breakChar file) file,
      spanOpen false (lineBody fileType line) = false) ∧
    escChar ∉ unterminated (breakChar file) file := by
  obtain ⟨source, same, rfl⟩ := reading.handed
  obtain ⟨noBreak, noZero⟩ := unterminated_member reading
  obtain ⟨breaks, last⟩ := close_lines_closing fileType (terminatedLines (breakChar file) file)
    (fun line member => (line_member reading line member).1) [] (by simp)
  have tail : (clearColor (unterminated (breakChar file) file)).count '\n' = 0 := by
    have few := clear_color_breaks (unterminated (breakChar file) file)
    rw [List.count_eq_zero.mpr noBreak] at few
    omega
  have counted : source.count '\n' = (terminatedLines (breakChar file) file).countP
      (fun line => !spanOpen false (lineBody fileType line)) := by
    rw [same, List.count_append, breaks, tail, List.count_nil]
    omega
  have few := next_lines_length source.length source
  have length := shown.length_eq
  rw [physicalLines, List.length_append] at length
  -- no handed line has a zero, so none is what stands behind the last break of a padded buffer
  have clean (more : (nextLines source.length source).length = source.count '\n' + 1)
      (zero : source.getLast? = some nulChar ∨ source.getLast? = some '\n') : False := by
    obtain ⟨c, line, final, member, inside, other⟩ := next_lines_overfull _ _ more
    have handed : nulChar ∉ line := by
      obtain ⟨shownLine, origin, shows_⟩ := forall_right_member shown line member
      have pure_ : '\n' ∉ shownLine ∧ nulChar ∉ shownLine := by
        rcases List.mem_append.mp origin with terminated | rest
        · exact line_member reading shownLine terminated
        · split at rest
          · cases rest
          · rw [List.mem_singleton] at rest
            exact rest ▸ unterminated_member reading
      rcases shows_ with rfl | ⟨_, rfl⟩
      · exact (spans_member _ pure_).2
      · refine (spans_member shownLine.dropLast ⟨?_, ?_⟩).2
        · exact fun there => pure_.1 (List.dropLast_subset _ there)
        · exact fun there => pure_.2 (List.dropLast_subset _ there)
    rcases zero with zero | lf
    · rw [final, Option.some.injEq] at zero
      exact handed (zero ▸ inside)
    · rw [final, Option.some.injEq] at lf
      exact other lf
  have closed : ∀ line ∈ terminatedLines (breakChar file) file,
      spanOpen false (lineBody fileType line) = false := by
    by_contra some_
    have fewer : (terminatedLines (breakChar file) file).countP
        (fun line => !spanOpen false (lineBody fileType line)) <
          (terminatedLines (breakChar file) file).length := by
      rcases Nat.lt_or_ge ((terminatedLines (breakChar file) file).countP
        (fun line => !spanOpen false (lineBody fileType line)))
          (terminatedLines (breakChar file) file).length with less | all
      · exact less
      · have every := List.countP_eq_length.mp (Nat.le_antisymm List.countP_le_length all)
        exact absurd (fun line member => by simpa using every line member) some_
    have none_ : unterminated (breakChar file) file = [] := by
      by_contra filled
      rw [if_neg filled, List.length_singleton] at length
      omega
    rw [if_pos none_, List.length_nil] at length
    apply clean (by omega)
    rw [same, none_, show clearColor [] = [] from rfl, List.append_nil]
    apply last
    intro empty
    rw [empty] at fewer
    simp at fewer
  refine ⟨closed, fun esc => ?_⟩
  have all : (terminatedLines (breakChar file) file).countP
      (fun line => !spanOpen false (lineBody fileType line)) =
        (terminatedLines (breakChar file) file).length :=
    List.countP_eq_length.mpr fun line member => by simp [closed line member]
  have filled : unterminated (breakChar file) file ≠ [] := List.ne_nil_of_mem esc
  rw [if_neg filled, List.length_singleton] at length
  apply clean (by omega)
  rw [same, List.getLast?_append, clear_color_esc _ esc]
  exact Or.inl rfl

omit reading in
theorem whole_closed (windows : fileType = .windows ↔ crlfFile file = true) (line : Text)
    (whole : WholeLine (crlfFile file) line) : spanOpen false (lineBody fileType line) = false := by
  rw [Bool.eq_false_iff, ne_eq, span_open_iff]
  unfold WholeLine at whole
  cases fileType with
  | windows =>
      rw [if_pos (windows.mp rfl)] at whole
      rcases whole with rfl | ⟨_, closed⟩
      · rintro ⟨before, after, same, _⟩
        simp [lineBody] at same
      · exact closed
  | unix | macos =>
      rw [if_neg (fun crlf => nomatch windows.mpr crlf)] at whole
      exact whole

theorem forall_shown (closed : ∀ line ∈ terminatedLines (breakChar file) file,
      spanOpen false (lineBody fileType line) = false)
    (plain : escChar ∉ unterminated (breakChar file) file) :
    List.Forall₂ Shows (physicalLines file) lines ↔
      ∀ line ∈ terminatedLines (breakChar file) file,
        Shows line (withoutSpans (lineBody fileType line)) := by
  have handed := lines_handed reading closed plain (first_line_filled reading)
  have rest : withoutSpans (unterminated (breakChar file) file) =
      unterminated (breakChar file) file := by
    rw [← clear_loop_spans, clear_loop_plain _ plain]
  rw [handed, physicalLines]
  apply forall_mapped
  split
  · exact .nil
  · exact .cons (Or.inl rest.symm) .nil

theorem lines_shown :
    List.Forall₂ Shows (physicalLines file) lines ↔
      (∀ line ∈ terminatedLines (breakChar file) file, WholeLine (crlfFile file) line) ∧
        escChar ∉ unterminated (breakChar file) file := by
  constructor
  · intro shown
    obtain ⟨closed, plain⟩ := handed_whole reading shown
    refine ⟨fun line member => ?_, plain⟩
    rw [← line_shown reading.windows line (closed line member)]
    exact (forall_shown reading closed plain).mp shown line member
  · rintro ⟨whole, plain⟩
    have closed := fun line member => whole_closed reading.windows line (whole line member)
    rw [forall_shown reading closed plain]
    intro line member
    exact (line_shown reading.windows line (closed line member)).mpr (whole line member)

end Reading

theorem shows_plain (line handed : Text) (plain : escChar ∉ line) :
    Shows line handed ↔ handed = line ∨ line = handed ++ ['\r'] := by
  have whole (text : Text) (none : escChar ∉ text) : withoutSpans text = text := by
    rw [← clear_loop_spans, clear_loop_plain text none]
  have front := whole line.dropLast fun there => plain (List.dropLast_subset line there)
  rw [Shows, whole line plain, front]
  constructor
  · rintro (same | ⟨last, rfl⟩)
    · exact Or.inl same
    · obtain ⟨front, rfl⟩ := List.getLast?_eq_some_iff.mp last
      exact Or.inr (by rw [List.dropLast_concat])
  · rintro (same | rfl)
    · exact Or.inl same
    · exact Or.inr ⟨List.getLast?_concat, List.dropLast_concat.symm⟩

theorem whole_plain (crlf : Bool) (line : Text) (plain : escChar ∉ line) :
    WholeLine crlf line ↔ (crlf = true → line = [] ∨ line.getLast? = some '\r') := by
  have closed (text : Text) (none : escChar ∉ text) : ¬ Truncated text := by
    rintro ⟨before, after, rfl, _⟩
    simp at none
  have front := closed line.dropLast fun there => plain (List.dropLast_subset line there)
  have last : line.getLast? ≠ some escChar := fun same => plain (List.mem_of_getLast? same)
  simp [WholeLine, front, last, closed line plain]

/-- Without escapes the lines come out in full exactly if a file that starts with a CRLF
line has no line that ends otherwise. -/
theorem lines_in_full (file : Text) (lines : List Text) (plain : escChar ∉ file)
    (feed : '\n' ∈ file) (read : sourceLines file = .ok lines) :
    List.Forall₂ (fun line handed => handed = line ∨ line = handed ++ ['\r'])
        (physicalLines file) lines ↔
      (crlfFile file = true →
        ∀ line ∈ terminatedLines '\n' file, line = [] ∨ line.getLast? = some '\r') := by
  obtain ⟨fileType, reading⟩ := file_read file lines read
  have lf : breakChar file = '\n' := by
    unfold breakChar
    rw [if_pos (by simpa using feed)]
  have part (line : Text) (member : line ∈ file.splitOn '\n') : escChar ∉ line :=
    fun there => plain ((part_member '\n' file line member).1 there)
  have front (line : Text) (member : line ∈ terminatedLines '\n' file) : escChar ∉ line :=
    part line (List.dropLast_subset _ member)
  have last : escChar ∉ unterminated '\n' file := by
    apply part
    unfold unterminated
    rw [List.getLast?_eq_some_getLast (List.splitOn_ne_nil _ _)]
    exact List.getLast_mem _
  -- without an escape nothing is stripped, so a line is shown when it is whole
  have related : List.Forall₂ Shows (physicalLines file) lines ↔
      List.Forall₂ (fun line handed => handed = line ∨ line = handed ++ ['\r'])
        (physicalLines file) lines := by
    have escapeless : ∀ line ∈ physicalLines file, escChar ∉ line := by
      intro line member
      rw [physicalLines, lf] at member
      rcases List.mem_append.mp member with terminated | rest
      · exact front line terminated
      · split at rest
        · cases rest
        · rw [List.mem_singleton] at rest
          exact rest ▸ last
    constructor
    · intro shown
      apply List.Forall₂.imp _ ((List.forall₂_and_left _ _).mpr ⟨escapeless, shown⟩)
      exact fun line handed both => (shows_plain line handed both.1).mp both.2
    · intro kept
      apply List.Forall₂.imp _ ((List.forall₂_and_left _ _).mpr ⟨escapeless, kept⟩)
      exact fun line handed both => (shows_plain line handed both.1).mpr both.2
  rw [← related, lines_shown reading, lf]
  constructor
  · rintro ⟨whole, _⟩ crlf line member
    exact (whole_plain _ line (front line member)).mp (whole line member) crlf
  · intro whole
    refine ⟨fun line member => ?_, last⟩
    exact (whole_plain _ line (front line member)).mpr fun crlf => whole crlf line member

/-- A CRLF file of two lines. -/
theorem lines_in_full_crlf :
    List.Forall₂ (fun line handed => handed = line ∨ line = handed ++ ['\r'])
      (physicalLines "$A = $arch\r\nreturn KILL\r\n".toList)
      ["$A = $arch".toList, "return KILL".toList] :=
  (lines_in_full _ _ (by decide) (by decide) (by decide)).mpr (by decide)

/-- In a CRLF file a line with another ending loses its last character. -/
theorem mixed_breaks_cut_line :
    sourceLines "$A = $arch\r\nreturn 0x7fff0000\n".toList =
        .ok ["$A = $arch".toList, "return 0x7fff000".toList] ∧
      ¬ List.Forall₂ (fun line handed => handed = line ∨ line = handed ++ ['\r'])
        (physicalLines "$A = $arch\r\nreturn 0x7fff0000\n".toList)
        ["$A = $arch".toList, "return 0x7fff000".toList] := by
  constructor
  · decide
  · decide

end Ceccomp
