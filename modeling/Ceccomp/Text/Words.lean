import Mathlib.Data.List.Find
import Ceccomp.Lib.Run
import Ceccomp.Text.Progress

/-!
Words are scanned whole: the token of a maximal run of letters, digits and underscores
is decided by the run alone.
-/

namespace Ceccomp

def archTokens : List TokenType := (archTable ++ archAliases).map Prod.fst

/-- Every token that is spelled like a word. -/
def reservedTokens : List TokenType := keywords ++ actions ++ archTokens

theorem reserved_inside : ∀ type ∈ reservedTokens, ∀ c ∈ type.spelling, isIdentifier c = true := by
  have all : reservedTokens.all (fun type => type.spelling.all isIdentifier) = true := rfl
  simpa only [List.all_eq_true] using all

theorem reserved_distinct : ∀ a ∈ reservedTokens, ∀ b ∈ reservedTokens,
    a.spelling = b.spelling → a = b := by
  decide +kernel

theorem reserved_case : (∀ type ∈ keywords ++ archTokens, (peekAt type.spelling 0).isLower = true) ∧
    ∀ type ∈ actions, (peekAt type.spelling 0).isLower = false ∧
      (peekAt type.spelling 0).isUpper = true := by
  decide

theorem arch_no_keyword : ∀ type ∈ archTokens, type ∉ keywords := by
  decide

theorem peek_ends (text : Text) (offset : Nat) :
    isIdentifier (peekAt text offset) = false ↔
      ∀ c, text[offset]? = some c → isIdentifier c = false := by
  unfold peekAt
  rw [List.getD_eq_getElem?_getD]
  cases text[offset]? with
  | none => simp [isIdentifier]
  | some c => simp

theorem archs_tried_known (first : Char) : ∀ type ∈ archsTried first, type ∈ archTokens := by
  intro type member
  unfold archsTried at member
  split at member <;> revert member <;> revert type <;> decide

theorem archs_tried_first : ∀ type ∈ archTokens, ∀ first later, type.spelling = first :: later →
    (archsTried first).find? (fun arch => arch.spelling.isPrefixOf type.spelling) = some type := by
  have each : ∀ type ∈ archTokens, (archsTried (type.spelling.headD ' ')).find?
      (fun arch => arch.spelling.isPrefixOf type.spelling) = some type := by
    decide
  intro type member first later spelled
  have own := each type member
  rw [spelled] at own ⊢
  exact own

section Scanning

variable {word rest : Text} (run : Run isIdentifier word rest)
include run

theorem match_token_word (type : TokenType) (reserved : type ∈ reservedTokens) :
    matchToken (word ++ rest) type = true ↔ type.spelling = word := by
  unfold matchToken
  rw [Bool.and_eq_true, List.isPrefixOf_iff_prefix, Bool.not_eq_true', peek_ends]
  apply run.whole_iff (reserved_inside type reserved)

theorem match_range_word (range : List TokenType) (inside : ∀ type ∈ range, type ∈ reservedTokens)
    (type : TokenType) (len : Nat) :
    matchTokenRange range (word ++ rest) = some (type, len) ↔
      type ∈ range ∧ type.spelling = word ∧ len = word.length := by
  unfold matchTokenRange
  rw [Option.map_eq_some_iff]
  constructor
  · rintro ⟨found, first, same⟩
    cases same
    have member := List.mem_of_find?_eq_some first
    have whole := (match_token_word run type (inside type member)).mp (List.find?_some first)
    exact ⟨member, whole, by rw [whole]⟩
  · rintro ⟨member, whole, rfl⟩
    have some_ : ((range.find? (matchToken (word ++ rest))).isSome) = true := by
      rw [List.find?_isSome]
      exact ⟨type, member, (match_token_word run type (inside type member)).mpr whole⟩
    obtain ⟨found, first⟩ := Option.isSome_iff_exists.mp some_
    have also := List.mem_of_find?_eq_some first
    have same := (match_token_word run found (inside found also)).mp (List.find?_some first)
    cases reserved_distinct found (inside found also) type (inside type member)
      (same.trans whole.symm)
    exact ⟨type, first, by rw [whole]⟩

theorem scan_arch_word (nonempty : word ≠ []) (type : TokenType) (len : Nat) :
    scanArch (word ++ rest) = some (type, len) ↔
      type ∈ archTokens ∧ type.spelling = word ∧ len = word.length := by
  obtain ⟨first, later, rfl⟩ := List.exists_cons_of_ne_nil nonempty
  have reserved (arch : TokenType) (member : arch ∈ archTokens) : arch ∈ reservedTokens :=
    List.mem_append_right _ member
  constructor
  · intro scanned
    unfold scanArch strToInternalArch at scanned
    rw [List.cons_append] at scanned
    dsimp only at scanned
    cases found : (archsTried first).find?
        (fun arch => arch.spelling.isPrefixOf (first :: (later ++ rest))) with
    | none => simp [found] at scanned
    | some arch =>
        rw [found] at scanned
        dsimp only at scanned
        split at scanned
        · next known =>
            cases scanned
            have member := archs_tried_known first _ (List.mem_of_find?_eq_some found)
            have hit : type.spelling.isPrefixOf (first :: (later ++ rest)) = true := by
              simpa using List.find?_some found
            have begins := List.isPrefixOf_iff_prefix.mp hit
            have ends := (peek_ends _ _).mp (by simpa using known.2)
            have whole := (run.whole_iff (reserved_inside _ (reserved _ member))).mp ⟨begins, ends⟩
            exact ⟨member, whole, by rw [whole]⟩
        · cases scanned
  -- a name of the table is a prefix only where it is the whole word
  · rintro ⟨member, spelled, rfl⟩
    have tried : (archsTried first).find? (fun arch => arch.spelling.isPrefixOf (first :: (later ++ rest))) =
        some type := by
      rw [← archs_tried_first type member first later spelled, spelled]
      apply List.find?_congr
      intro arch known
      have inside := reserved_inside arch (reserved arch (archs_tried_known first arch known))
      rw [Bool.eq_iff_iff, List.isPrefixOf_iff_prefix, List.isPrefixOf_iff_prefix]
      apply run.prefix_iff inside
    have ends := ((run.whole_iff (reserved_inside type (reserved type member))).mpr spelled).2
    have arch : type ≠ .unknown := by
      rintro rfl
      revert member
      decide
    unfold scanArch strToInternalArch
    rw [List.cons_append]
    dsimp only
    rw [tried]
    dsimp only
    have stops := (peek_ends _ _).mpr ends
    rw [List.cons_append] at stops
    rw [stops, if_pos ⟨arch, rfl⟩, spelled]

theorem scan_word_run :
    scanWord (word ++ rest) =
      if peekAt rest 0 = ':' then (.labelDecl, word.length + 1) else (.identifier, word.length) := by
  have behind : peekAt (word ++ rest) word.length = peekAt rest 0 := by
    unfold peekAt
    rw [List.getD_eq_getElem?_getD, List.getD_eq_getElem?_getD,
      List.getElem?_append_right (Nat.le_refl _), Nat.sub_self]
  unfold scanWord
  dsimp only
  rw [run.take_while, behind]

omit run in
theorem keyword_reserved (type : TokenType) (member : type ∈ keywords) : type ∈ reservedTokens :=
  List.mem_append_left _ (List.mem_append_left _ member)

omit run in
theorem action_reserved (type : TokenType) (member : type ∈ actions) : type ∈ reservedTokens :=
  List.mem_append_left _ (List.mem_append_right _ member)

omit run in
theorem arch_reserved (type : TokenType) (member : type ∈ archTokens) : type ∈ reservedTokens :=
  List.mem_append_right _ member

omit run in
theorem peek_word (nonempty : word ≠ []) : peekAt (word ++ rest) 0 = peekAt word 0 := by
  obtain ⟨first, later, rfl⟩ := List.exists_cons_of_ne_nil nonempty
  rfl

theorem scan_lexeme_reserved (nonempty : word ≠ []) (type : TokenType)
    (reserved : type ∈ reservedTokens) (spelled : type.spelling = word) :
    scanLexeme (word ++ rest) = some (type, word.length, 0) := by
  have first : peekAt (word ++ rest) 0 = peekAt type.spelling 0 := by
    rw [peek_word nonempty, spelled]
  obtain ⟨lower, upper⟩ := reserved_case
  unfold scanLexeme
  rw [first]
  dsimp only
  unfold reservedTokens at reserved
  rcases List.mem_append.mp reserved with among | arch
  · rcases List.mem_append.mp among with keyword | action
    · have found := (match_range_word run keywords keyword_reserved type _).mpr
        ⟨keyword, spelled, rfl⟩
      rw [if_pos (lower type (List.mem_append_left _ keyword)), found]
      rfl
    · have found := (match_range_word run actions action_reserved type _).mpr ⟨action, spelled, rfl⟩
      obtain ⟨notLower, isUpper⟩ := upper type action
      rw [notLower, if_neg Bool.false_ne_true, if_pos isUpper, found]
  · have found := (scan_arch_word run nonempty type _).mpr ⟨arch, spelled, rfl⟩
    have noKeyword : matchTokenRange keywords (word ++ rest) = none := by
      cases hit : matchTokenRange keywords (word ++ rest) with
      | none => rfl
      | some both =>
          obtain ⟨keyword, len⟩ := both
          obtain ⟨member, same, _⟩ := (match_range_word run keywords keyword_reserved _ _).mp hit
          cases reserved_distinct keyword (keyword_reserved _ member) type (arch_reserved _ arch)
            (same.trans spelled.symm)
          exact absurd member (arch_no_keyword type arch)
    rw [if_pos (lower type (List.mem_append_right _ arch)), noKeyword, found]
    rfl

theorem scan_lexeme_free (nonempty : word ≠ []) (alpha : (peekAt word 0).isAlpha = true)
    (free : ∀ type ∈ reservedTokens, type.spelling ≠ word) :
    scanLexeme (word ++ rest) =
      some ((scanWord (word ++ rest)).1, (scanWord (word ++ rest)).2, 0) := by
  have range (tokens : List TokenType) (inside : ∀ type ∈ tokens, type ∈ reservedTokens) :
      matchTokenRange tokens (word ++ rest) = none := by
    cases hit : matchTokenRange tokens (word ++ rest) with
    | none => rfl
    | some both =>
        obtain ⟨member, same, _⟩ := (match_range_word run tokens inside both.1 both.2).mp hit
        exact absurd same (free _ (inside _ member))
  have arch : scanArch (word ++ rest) = none := by
    cases hit : scanArch (word ++ rest) with
    | none => rfl
    | some both =>
        obtain ⟨member, same, _⟩ := (scan_arch_word run nonempty both.1 both.2).mp hit
        exact absurd same (free _ (arch_reserved _ member))
  unfold scanLexeme
  rw [range keywords keyword_reserved, range actions action_reserved, arch, peek_word nonempty]
  simp only [Option.or_none, ite_self, alpha, if_true]

omit run in
theorem scan_token_word (scanner : Scanner) (text : Text) (here : scanner.rest = some text)
    (skipped : text.dropWhile isSpace = word ++ rest) (nonempty : word ≠ [])
    (alpha : (peekAt word 0).isAlpha = true) (type : TokenType) (len : Nat) (data : Word)
    (scanned : scanLexeme (word ++ rest) = some (type, len, data)) :
    scanToken scanner =
      ({ type, start := word ++ rest, len, lineNr := scanner.lineNr, data },
        { scanner with rest := some ((word ++ rest).drop len) }) := by
  have some_ : word ++ rest ≠ [] := List.append_ne_nil_of_left_ne_nil nonempty rest
  have noComment : peekAt (word ++ rest) 0 ≠ '#' := by
    rw [peek_word nonempty]
    intro comment
    rw [comment] at alpha
    revert alpha
    decide
  unfold scanToken
  rw [here]
  dsimp only
  rw [skipped, if_neg some_, if_neg noComment, scanned]

end Scanning

/-- A word that starts with a letter is scanned whole, with the colon behind it when it
is not reserved, and it is a reserved token exactly when it is spelled like it. -/
theorem word_scanned_whole {word rest : Text} (run : Run isIdentifier word rest)
    (scanner : Scanner) (text : Text) (here : scanner.rest = some text)
    (skipped : text.dropWhile isSpace = word ++ rest) (nonempty : word ≠ [])
    (alpha : (peekAt word 0).isAlpha = true) :
    (scanToken scanner).1.start = word ++ rest ∧
    (∀ type ∈ reservedTokens, ((scanToken scanner).1.type = type ↔ type.spelling = word)) ∧
    ((∃ type ∈ reservedTokens, type.spelling = word) → (scanToken scanner).1.text = word ∧
      (scanToken scanner).2 = { scanner with rest := some rest }) ∧
    ((∀ type ∈ reservedTokens, type.spelling ≠ word) → peekAt rest 0 ≠ ':' →
      (scanToken scanner).1.type = .identifier ∧ (scanToken scanner).1.text = word ∧
        (scanToken scanner).2 = { scanner with rest := some rest }) ∧
    ((∀ type ∈ reservedTokens, type.spelling ≠ word) → peekAt rest 0 = ':' →
      (scanToken scanner).1.type = .labelDecl ∧ (scanToken scanner).1.text = word ++ [':'] ∧
        (scanToken scanner).2 = { scanner with rest := some (rest.drop 1) }) := by
  have scans := scan_token_word scanner text here skipped nonempty alpha
  by_cases known : ∃ type ∈ reservedTokens, type.spelling = word
  · obtain ⟨own, reserved, spelled⟩ := known
    rw [scans _ _ _ (scan_lexeme_reserved run nonempty own reserved spelled)]
    -- the spellings of keywords differ, so no other type can have this one
    refine ⟨rfl, fun type member => ?_, fun _ => ?_, fun free => ?_, fun free => ?_⟩
    · constructor
      · rintro rfl
        exact spelled
      · intro same
        exact reserved_distinct own reserved type member (spelled.trans same.symm)
    · simp [Token.text]
    · exact absurd spelled (free own reserved)
    · exact absurd spelled (free own reserved)
  · have free : ∀ type ∈ reservedTokens, type.spelling ≠ word :=
      fun type member same => known ⟨type, member, same⟩
    have foreign : TokenType.identifier ∉ reservedTokens ∧ TokenType.labelDecl ∉ reservedTokens := by
      decide
    have scanned := scan_lexeme_free run nonempty alpha free
    rw [scan_word_run run] at scanned
    -- a colon behind the word is part of the token
    by_cases colon : peekAt rest 0 = ':'
    · rw [if_pos colon] at scanned
      rw [scans _ _ _ scanned]
      refine ⟨rfl, fun type member => ?_, fun some_ => absurd some_ known, fun _ no => absurd colon no,
        fun _ _ => ?_⟩
      · constructor
        · rintro rfl
          exact absurd member foreign.2
        · intro same
          exact absurd same (free type member)
      · cases rest with
        | nil => cases colon
        | cons c later =>
            cases (show c = ':' from colon)
            have whole := List.take_of_length_le (Nat.le_succ word.length)
            simp [Token.text, List.take_append, whole]
    · rw [if_neg colon] at scanned
      rw [scans _ _ _ scanned]
      refine ⟨rfl, fun type member => ?_, fun some_ => absurd some_ known, fun _ _ => ?_,
        fun _ yes => absurd yes colon⟩
      · constructor
        · rintro rfl
          exact absurd member foreign.1
        · intro same
          exact absurd same (free type member)
      · simp [Token.text]

/-- What is left of the line `mips64: A` behind a blank. -/
def mipsScanner : Scanner :=
  { rest := some " mips64: A".toList, lines := [], lineNr := 1, unknownCount := 0 }

/-- `mips64:` declares no label. -/
theorem word_scanned_whole_mips : (scanToken mipsScanner).1.type = .archMips64 := by
  have run : Run isIdentifier "mips64".toList ": A".toList :=
    { all := by simp [isIdentifier], ends := by simp [isIdentifier] }
  obtain ⟨_, iff_, _⟩ := word_scanned_whole run mipsScanner _ rfl (by decide +kernel) (by decide)
    (by decide)
  exact (iff_ .archMips64 (by decide)).mpr (by decide)

end Ceccomp
