import Ceccomp.Text.Local
import Ceccomp.Text.Words

/-!
Printed text scanned again: a word or a sign followed by what does not continue it is
one token, and the parser stands behind it after one step.
-/

namespace Ceccomp

/-- `word` is one token of a line on which `rest` follows it. -/
structure Lexeme (type : TokenType) (data : Word) (word rest : Text) : Prop where
  starts : ∃ c, word.head? = some c ∧ isSpace c = false ∧ c ≠ '#'
  scanned : scanLexeme (word ++ rest) = some (type, word.length, data)

/-- The parser's next token is the first one of `text`, `scanner` having reached it. -/
def Tokens.At (tokens : Tokens) (scanner : Scanner) (text : Text) : Prop :=
  scanToken { scanner with rest := some text } = (tokens.next, tokens.scanner)

theorem scan_token_skips (scanner : Scanner) (text other : Text)
    (same : text.dropWhile isSpace = other.dropWhile isSpace) :
    scanToken { scanner with rest := some text } = scanToken { scanner with rest := some other } := by
  unfold scanToken
  dsimp only
  rw [same]

theorem at_blanks (tokens : Tokens) (scanner : Scanner) (blanks text : Text)
    (blank : ∀ c ∈ blanks, isSpace c = true) :
    tokens.At scanner (blanks ++ text) ↔ tokens.At scanner text := by
  have same : (blanks ++ text).dropWhile isSpace = text.dropWhile isSpace := by
    induction blanks with
    | nil => rfl
    | cons c blanks ih =>
        rw [List.cons_append, List.dropWhile_cons, if_pos (blank c List.mem_cons_self)]
        exact ih fun other member => blank other (List.mem_cons_of_mem c member)
  unfold Tokens.At
  rw [scan_token_skips scanner _ _ same]

theorem at_blank (tokens : Tokens) (scanner : Scanner) (text : Text) :
    tokens.At scanner (' ' :: text) ↔ tokens.At scanner text :=
  at_blanks tokens scanner [' '] text (by simp [isSpace])

section Lexemes

variable {type : TokenType} {data : Word} {word rest : Text}

theorem scan_token_lexeme (lexeme : Lexeme type data word rest) (scanner : Scanner) :
    scanToken { scanner with rest := some (word ++ rest) } =
      ({ type, start := word ++ rest, len := word.length, lineNr := scanner.lineNr, data },
        { scanner with rest := some rest }) := by
  obtain ⟨c, head, space, comment⟩ := lexeme.starts
  obtain ⟨later, rfl⟩ : ∃ later, word = c :: later := by
    cases word with
    | nil => cases head
    | cons first later =>
        cases head
        exact ⟨later, rfl⟩
  have kept : (c :: later ++ rest).dropWhile isSpace = c :: later ++ rest := by
    rw [List.cons_append, List.dropWhile_cons, if_neg (by simp [space])]
  have some_ : c :: later ++ rest ≠ [] := List.cons_ne_nil c _
  have noComment : peekAt (c :: later ++ rest) 0 ≠ '#' := comment
  unfold scanToken
  dsimp only
  rw [kept, if_neg some_, if_neg noComment, lexeme.scanned]
  dsimp only
  rw [List.drop_left]

theorem at_lexeme (lexeme : Lexeme type data word rest) (tokens : Tokens) (scanner : Scanner)
    (here : tokens.At scanner (word ++ rest)) :
    tokens.next =
        { type, start := word ++ rest, len := word.length, lineNr := scanner.lineNr, data } ∧
      tokens.advance.At scanner rest := by
  unfold Tokens.At at here
  rw [scan_token_lexeme lexeme] at here
  cases next : tokens.next
  cases behind : tokens.scanner
  simp only [next, behind, Prod.mk.injEq] at here
  obtain ⟨same, after⟩ := here
  constructor
  · exact same.symm
  · unfold Tokens.At Tokens.advance
    dsimp only
    rw [after, behind]

end Lexemes

/-- `scan_token` takes the word for an identifier. -/
structure PlainName (name : Text) : Prop where
  letter : (peekAt name 0).isAlpha = true
  inside : ∀ c ∈ name, isIdentifier c = true
  free : ∀ type ∈ reservedTokens, type.spelling ≠ name

theorem plain_nonempty (name : Text) (plain : PlainName name) : name ≠ [] := by
  rintro rfl
  exact absurd plain.letter (by decide)

theorem alpha_starts (word : Text) (letter : (peekAt word 0).isAlpha = true) :
    ∃ c, word.head? = some c ∧ isSpace c = false ∧ c ≠ '#' := by
  cases word with
  | nil => exact absurd letter (by decide)
  | cons c later =>
      have alpha : c.isAlpha = true := letter
      refine ⟨c, rfl, ?_, ?_⟩
      · by_contra space
        simp only [Bool.not_eq_false, isSpace, Bool.or_eq_true, beq_iff_eq] at space
        rcases space with (((rfl | rfl) | rfl) | rfl) | rfl <;> revert alpha <;> decide
      · rintro rfl
        revert alpha
        decide

def Stops (rest : Text) : Prop := ∀ c, rest.head? = some c → isIdentifier c = false

theorem name_lexeme (name rest : Text) (plain : PlainName name) (stops : Stops rest)
    (colon : peekAt rest 0 ≠ ':') : Lexeme .identifier 0 name rest := by
  have run : Run isIdentifier name rest := { all := plain.inside, ends := stops }
  have scanned := scan_lexeme_free run (plain_nonempty name plain) plain.letter plain.free
  rw [scan_word_run run, if_neg colon] at scanned
  exact { starts := alpha_starts name plain.letter, scanned }

theorem declaration_lexeme (name rest : Text) (plain : PlainName name) :
    Lexeme .labelDecl 0 (name ++ [':']) rest := by
  have run : Run isIdentifier name (':' :: rest) :=
    { all := plain.inside
      ends := fun c head => by
        cases head
        decide }
  have scanned := scan_lexeme_free run (plain_nonempty name plain) plain.letter plain.free
  have colon : peekAt (':' :: rest) 0 = ':' := rfl
  rw [scan_word_run run, if_pos colon] at scanned
  have first : peekAt (name ++ [':']) 0 = peekAt name 0 := peek_word (plain_nonempty name plain)
  constructor
  · exact alpha_starts _ (first ▸ plain.letter)
  · rw [List.append_assoc, List.length_append]
    exact scanned

theorem at_underscore (tokens : Tokens) (scanner : Scanner) (text : Text)
    (here : tokens.At scanner ('_' :: text)) :
    tokens.next.type = .unknown ∨ tokens.next.type = .tokenEof := by
  have kept : ('_' :: text).dropWhile isSpace = '_' :: text := rfl
  have some_ : '_' :: text ≠ [] := List.cons_ne_nil _ _
  have noComment : peekAt ('_' :: text) 0 ≠ '#' := by
    intro same
    cases same
  have unknown : scanLexeme ('_' :: text) = none := rfl
  unfold Tokens.At scanToken at here
  dsimp only at here
  rw [kept, if_neg some_, if_neg noComment, unknown] at here
  dsimp only at here
  split at here
  · exact Or.inr (congrArg (fun both => both.1.type) here).symm
  · exact Or.inl (congrArg (fun both => both.1.type) here).symm

theorem reserved_alpha : ∀ type ∈ reservedTokens, (peekAt type.spelling 0).isAlpha = true := by
  decide

theorem reserved_lexeme (type : TokenType) (rest : Text) (reserved : type ∈ reservedTokens)
    (stops : Stops rest) : Lexeme type 0 type.spelling rest := by
  have run : Run isIdentifier type.spelling rest :=
    { all := reserved_inside type reserved, ends := stops }
  exact
    { starts := alpha_starts _ (reserved_alpha type reserved)
      scanned := scan_lexeme_reserved run (spelling_nonempty type) type reserved rfl }

theorem sign_lexeme (type : TokenType) (rest : Text)
    (sign : type ∈ [.leftParen, .rightParen, .leftBracket, .rightBracket, .comma, .dot]) :
    Lexeme type 0 type.spelling rest := by
  simp only [List.mem_cons, List.not_mem_nil, or_false] at sign
  rcases sign with rfl | rfl | rfl | rfl | rfl | rfl <;>
    exact { starts := ⟨_, rfl, by decide, by decide⟩, scanned := rfl }

theorem operator_lexeme (type : TokenType) (rest : Text)
    (operator : type ∈ .equal :: (comparators ++ aluOperators)) :
    Lexeme type 0 type.spelling (' ' :: rest) := by
  simp only [comparators, aluOperators, List.cons_append, List.nil_append, List.mem_cons,
    List.not_mem_nil, or_false] at operator
  rcases operator with rfl | rfl | rfl | rfl | rfl | rfl | rfl | rfl | rfl | rfl | rfl | rfl | rfl |
    rfl | rfl | rfl | rfl <;>
    exact { starts := ⟨_, rfl, by decide, by decide⟩, scanned := rfl }

theorem register_lexeme (type : TokenType) (rest : Text) (register : type ∈ [.A, .X]) :
    Lexeme type 0 type.spelling rest := by
  simp only [List.mem_cons, List.not_mem_nil, or_false] at register
  rcases register with rfl | rfl <;>
    exact { starts := ⟨_, rfl, by decide, by decide⟩, scanned := rfl }

theorem bang_lexeme (rest : Text) : Lexeme .bang 0 TokenType.bang.spelling ('(' :: rest) :=
  { starts := ⟨_, rfl, by decide, by decide⟩, scanned := rfl }

theorem negative_lexeme (rest : Text) (other : peekAt rest 0 ≠ '=') :
    Lexeme .negative 0 TokenType.negative.spelling rest := by
  have scanned : scanLexeme ('-' :: rest) = some (.negative, 1, 0) := by
    cases rest with
    | nil => rfl
    | cons c later =>
        have plain : c ≠ '=' := other
        have punct : scanPunct ('-' :: c :: later) = some (.negative, 1) := by
          unfold scanPunct
          split <;> simp_all [peekAt]
        have lexeme : scanLexeme ('-' :: c :: later) =
            (scanPunct ('-' :: c :: later)).map fun found => (found.1, found.2, 0) := rfl
        rw [lexeme, punct]
        rfl
  exact { starts := ⟨_, rfl, by decide, by decide⟩, scanned }

theorem variable_words : ∀ type ∈ variableTokens, type.spelling = '$' :: type.spelling.tail := by
  decide

theorem variable_inside : ∀ type ∈ variableTokens, ∀ c ∈ type.spelling.tail, isIdentifier c = true := by
  have all : variableTokens.all (fun type => type.spelling.tail.all isIdentifier) = true := rfl
  simpa only [List.all_eq_true] using all

theorem variable_distinct : ∀ a ∈ variableTokens, ∀ b ∈ variableTokens,
    a.spelling.tail = b.spelling.tail → a = b := by
  decide

theorem match_variable (type other : TokenType) (known : type ∈ variableTokens)
    (member : other ∈ variableTokens) (rest : Text) (stops : Stops rest) :
    matchToken (type.spelling ++ rest) other = true ↔ other = type := by
  have run : Run isIdentifier type.spelling.tail rest :=
    { all := variable_inside type known, ends := stops }
  have length : other.spelling.length = other.spelling.tail.length + 1 := by
    have same := congrArg List.length (variable_words other member)
    rwa [List.length_cons] at same
  have peeked (text : Text) (offset : Nat) : peekAt ('$' :: text) (offset + 1) = peekAt text offset := by
    simp [peekAt]
  unfold matchToken
  rw [variable_words type known, List.cons_append, length, peeked, variable_words other member,
    List.isPrefixOf_cons_cons_self, Bool.and_eq_true, List.isPrefixOf_iff_prefix, Bool.not_eq_true',
    peek_ends]
  constructor
  · intro matched
    exact variable_distinct other member type known
      ((run.whole_iff (variable_inside other member)).mp matched)
  · rintro rfl
    exact (run.whole_iff (variable_inside other member)).mpr rfl

theorem variable_lexeme (type : TokenType) (rest : Text) (known : type ∈ variableTokens)
    (stops : Stops rest) : Lexeme type 0 type.spelling rest := by
  have range : matchTokenRange variableTokens (type.spelling ++ rest) =
      some (type, type.spelling.length) := by
    have hit : (variableTokens.find? (matchToken (type.spelling ++ rest))).isSome = true := by
      rw [List.find?_isSome]
      exact ⟨type, known, (match_variable type type known known rest stops).mpr rfl⟩
    obtain ⟨found, first⟩ := Option.isSome_iff_exists.mp hit
    have same := (match_variable type found known (List.mem_of_find?_eq_some first) rest stops).mp
      (List.find?_some first)
    unfold matchTokenRange
    rw [first, same]
    rfl
  have punct : scanLexeme (type.spelling ++ rest) =
      (matchTokenRange variableTokens (type.spelling ++ rest)).map
        fun found => (found.1, found.2, 0) := by
    simp only [variableTokens, List.mem_cons, List.not_mem_nil, or_false] at known
    rcases known with rfl | rfl | rfl | rfl | rfl | rfl | rfl | rfl <;> rfl
  constructor
  · exact ⟨'$', by rw [variable_words type known]; rfl, by decide, by decide⟩
  · rw [punct, range]
    rfl

/-- How a token came about: its type, its length and its number. -/
inductive Spelled (text : Text) : TokenType → Nat → Word → Prop where
  | reserved (type : TokenType) (member : type ∈ reservedTokens)
      (begins : type.spelling.isPrefixOf text = true) :
      Spelled text type type.spelling.length 0
  | word (letter : (peekAt text 0).isAlpha = true)
      (free : ∀ type ∈ reservedTokens, type.spelling ≠ text.takeWhile isIdentifier) :
      Spelled text (scanWord text).1 (scanWord text).2 0
  | number (digit : (peekAt text 0).isDigit = true) (fits : (strtoul text).1 < 2 ^ 32) :
      Spelled text .number (strtoul text).2 (BitVec.ofNat 32 (strtoul text).1)
  | overflow : Spelled text .overflowNumber 1 0
  | punct (type : TokenType) (len : Nat) (scanned : scanPunct text = some (type, len)) :
      Spelled text type len 0

theorem range_spelled (range : List TokenType) (inside : ∀ type ∈ range, type ∈ reservedTokens)
    (text : Text) (type : TokenType) (len : Nat)
    (found : matchTokenRange range text = some (type, len)) : Spelled text type len 0 := by
  obtain ⟨token, first, same⟩ := Option.map_eq_some_iff.mp found
  cases same
  have matched := List.find?_some first
  unfold matchToken at matched
  rw [Bool.and_eq_true] at matched
  exact .reserved type (inside type (List.mem_of_find?_eq_some first)) matched.1

theorem arch_spelled (text : Text) (type : TokenType) (len : Nat)
    (found : scanArch text = some (type, len)) : Spelled text type len 0 := by
  unfold scanArch at found
  dsimp only at found
  split at found
  · next known =>
      cases found
      have real := known.1
      unfold strToInternalArch at real ⊢
      cases text with
      | nil => exact absurd rfl real
      | cons first rest =>
          dsimp only at real ⊢
          cases tried : (archsTried first).find?
              (fun arch => arch.spelling.isPrefixOf (first :: rest)) with
          | none => simp [tried] at real
          | some arch =>
              have member := archs_tried_known first arch (List.mem_of_find?_eq_some tried)
              have begins := List.find?_some tried
              exact .reserved arch (arch_reserved arch member) begins
  · cases found

theorem scan_word_type (text : Text) :
    (scanWord text).1 = .labelDecl ∨ (scanWord text).1 = .identifier := by
  unfold scanWord
  dsimp only
  split
  · exact Or.inl rfl
  · exact Or.inr rfl

theorem lexeme_spelled (text : Text) (type : TokenType) (len : Nat) (data : Word)
    (found : scanLexeme text = some (type, len, data)) : Spelled text type len data := by
  have whole := found
  unfold scanLexeme at found
  dsimp only at found
  split at found
  · next type' len' reserved =>
      cases found
      split at reserved
      · rcases Option.or_eq_some_iff.mp reserved with word | ⟨_, arch⟩
        · exact range_spelled keywords keyword_reserved text _ _ word
        · exact arch_spelled text _ _ arch
      · split at reserved
        · exact range_spelled actions action_reserved text _ _ reserved
        · cases reserved
  · split at found
    · next letter =>
        cases found
        refine .word letter fun type reserved spelled => ?_
        -- a reserved word would have been taken before
        have run := take_while_run isIdentifier text
        have nonempty : text.takeWhile isIdentifier ≠ [] := by
          rw [← spelled]
          exact spelling_nonempty type
        have scanned := scan_lexeme_reserved run nonempty type reserved spelled
        rw [List.takeWhile_append_dropWhile, whole] at scanned
        rw [Option.some.injEq, Prod.mk.injEq] at scanned
        rw [← scanned.1] at reserved
        rcases scan_word_type text with type | type <;> rw [type] at reserved <;> revert reserved <;>
          decide
    · split at found
      · next digit =>
          split at found
          · cases found
            exact .overflow
          · next fits =>
              cases found
              exact .number digit (Nat.lt_of_not_le fits)
      · obtain ⟨⟨punct, width⟩, scanned, same⟩ := Option.map_eq_some_iff.mp found
        cases same
        exact .punct _ _ scanned

theorem punct_foreign (text : Text) (type : TokenType) (len : Nat)
    (found : scanPunct text = some (type, len)) :
    type ∉ [.identifier, .labelDecl, .number] ++ reservedTokens := by
  unfold scanPunct at found
  split at found
  all_goals first
    | (cases found; done)
    | (cases found; decide)
    | (have member := match_range_member _ _ _ _ found
       revert member
       clear found
       cases type <;> decide)

theorem word_plain (text : Text) (letter : (peekAt text 0).isAlpha = true)
    (free : ∀ type ∈ reservedTokens, type.spelling ≠ text.takeWhile isIdentifier) :
    PlainName (text.takeWhile isIdentifier) := by
  refine { letter := ?_, inside := fun c => List.mem_takeWhile_imp, free }
  cases text with
  | nil => exact letter
  | cons c rest =>
      have alpha : c.isAlpha = true := letter
      have inside : isIdentifier c = true := by simp [isIdentifier, Char.isAlphanum, alpha]
      rw [List.takeWhile_cons, if_pos inside]
      exact letter

theorem peek_drop (text : Text) (offset : Nat) (c : Char) (there : peekAt text offset = c)
    (inside : c ≠ '\n') : text.drop offset = c :: text.drop (offset + 1) := by
  unfold peekAt at there
  rw [List.getD_eq_getElem?_getD] at there
  cases found : text[offset]? with
  | none =>
      rw [found] at there
      exact absurd there.symm inside
  | some other =>
      rw [found] at there
      obtain ⟨bound, here⟩ := List.getElem?_eq_some_iff.mp found
      rw [List.drop_eq_getElem_cons bound, here]
      exact congrArg (· :: _) there

theorem peeks_taken (text chars : Text) (inside : '\n' ∉ chars)
    (peeks : ∀ i c, chars[i]? = some c → peekAt text i = c) : text.take chars.length = chars := by
  induction chars generalizing text with
  | nil => rfl
  | cons c chars ih =>
      rw [List.mem_cons, not_or] at inside
      have first := peek_drop text 0 c (peeks 0 c rfl) (Ne.symm inside.1)
      rw [List.drop_zero] at first
      rw [first, List.length_cons, List.take_succ_cons, ih _ inside.2]
      intro i d found
      have there := peeks (i + 1) d (by simpa using found)
      rw [first] at there
      simpa [peekAt] using there

theorem spelling_single (type : TokenType) : '\n' ∉ type.spelling := by
  cases type <;> decide

theorem sign_taken (text : Text) (type : TokenType) (len : Nat) (length : len = type.spelling.length)
    (peeks : ∀ i c, type.spelling[i]? = some c → peekAt text i = c) :
    text.take len = type.spelling := by
  rw [length]
  exact peeks_taken text type.spelling (spelling_single type) peeks

theorem prefix_taken (word text : Text) (begins : word.isPrefixOf text = true) :
    text.take word.length = word :=
  (List.prefix_iff_eq_take.mp (List.isPrefixOf_iff_prefix.mp begins)).symm

theorem punct_spelled (text : Text) (type : TokenType) (len : Nat)
    (found : scanPunct text = some (type, len)) : text.take len = type.spelling := by
  have range (found : matchTokenRange variableTokens text = some (type, len)) :
      text.take len = type.spelling := by
    obtain ⟨token, first, same⟩ := Option.map_eq_some_iff.mp found
    cases same
    have matched := List.find?_some first
    unfold matchToken at matched
    exact prefix_taken _ _ (Bool.and_eq_true_iff.mp matched).1
  unfold scanPunct at found
  split at found
  all_goals first
    | (cases found; done)
    | exact range found
    | (cases found
       refine sign_taken text _ _ rfl fun i c there => ?_
       rcases i with _ | _ | _ | i
       all_goals first
         | (cases there; assumption)
         | cases there)

theorem spelled_text {text : Text} {type : TokenType} {len : Nat} {data : Word}
    (spelled : Spelled text type len data)
    (kind : type ∉ [.identifier, .labelDecl, .number, .overflowNumber]) :
    text.take len = type.spelling := by
  cases spelled with
  | reserved _ member begins => exact prefix_taken _ _ begins
  | word letter free =>
      rcases scan_word_type text with type | type
      · rw [type] at kind
        exact absurd (by decide) kind
      · rw [type] at kind
        exact absurd (by decide) kind
  | number digit fits => exact absurd (by decide) kind
  | overflow => exact absurd (by decide) kind
  | punct _ _ scanned => exact punct_spelled text type len scanned

section Kinds

variable {text : Text} {type : TokenType} {len : Nat} {data : Word}

theorem identifier_plain (spelled : Spelled text type len data) (kind : type = .identifier) :
    PlainName (text.take len) := by
  cases spelled with
  | reserved _ member begins =>
      rw [kind] at member
      exact absurd member (by decide)
  | word letter free =>
      unfold scanWord at kind ⊢
      dsimp only at kind ⊢
      by_cases colon : peekAt text (text.takeWhile isIdentifier).length = ':'
      · rw [if_pos colon] at kind
        cases kind
      · rw [if_neg colon]
        dsimp only
        rw [take_while_taken]
        exact word_plain text letter free
  | number digit fits => cases kind
  | overflow => cases kind
  | punct _ _ scanned =>
      have foreign := punct_foreign text type len scanned
      rw [kind] at foreign
      exact absurd (by decide) foreign

theorem declaration_plain (spelled : Spelled text type len data) (kind : type = .labelDecl) :
    ∃ name, PlainName name ∧ len = name.length + 1 ∧ text.take len = name ++ [':'] := by
  cases spelled with
  | reserved _ member begins =>
      rw [kind] at member
      exact absurd member (by decide)
  | word letter free =>
      unfold scanWord at kind ⊢
      dsimp only at kind ⊢
      by_cases colon : peekAt text (text.takeWhile isIdentifier).length = ':'
      · rw [if_pos colon]
        refine ⟨_, word_plain text letter free, rfl, ?_⟩
        dsimp only
        rw [List.take_add, take_while_taken]
        rw [peek_drop text _ ':' colon (by decide)]
        rfl
      · rw [if_neg colon] at kind
        cases kind
  | number digit fits => cases kind
  | overflow => cases kind
  | punct _ _ scanned =>
      have foreign := punct_foreign text type len scanned
      rw [kind] at foreign
      exact absurd (by decide) foreign

end Kinds

end Ceccomp
