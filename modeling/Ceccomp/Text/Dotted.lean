import Ceccomp.Text.Readback
import Ceccomp.Text.Spellings

/-!
The operand `arch . name`. `compare_obj` keeps as many characters of it as the two words
and the dot have, so that blanks around the dot cut the name short.
-/

namespace Ceccomp

/-- The two words around a dot, and how many blanks there are before and behind it. -/
structure DotSpelling where
  arch : Text
  before : Nat
  after : Nat
  name : Text
  deriving DecidableEq, Repr

def dotSpelling (line : Text) : DotSpelling :=
  let front := (line.takeWhile (· != '.')).reverse
  let back := (line.dropWhile (· != '.')).tail
  { arch := ((front.dropWhile isSpace).takeWhile isIdentifier).reverse
    before := (front.takeWhile isSpace).length
    after := (back.takeWhile isSpace).length
    name := (back.dropWhile isSpace).takeWhile isIdentifier }

/-- What is left of `arch . name` still stands for the number of the name: there is a name
left and it has the same number, or the dot is gone and the architecture has it. -/
def DotKept (lib : Libseccomp) (arch : TokenType) (before after : Nat) (name : Text) : Prop :=
  let number := lib.resolveNameArch (internalArchToScmpArch arch) name
  let left := name.take (name.length - (before + after))
  name.length < before ∧ internalArchToScmpArch arch = number ∨
    PlainName left ∧ lib.resolveNameArch (internalArchToScmpArch arch) left = number

theorem dot_kept_close (lib : Libseccomp) (arch : TokenType) (name : Text) (plain : PlainName name) :
    DotKept lib arch 0 0 name := by
  right
  rw [Nat.add_zero, Nat.sub_zero, List.take_length]
  exact ⟨plain, rfl⟩

def DotSpelling.Kept (lib : Libseccomp) (spelling : DotSpelling) : Prop :=
  ∃ arch ∈ archTokens, arch.spelling = spelling.arch ∧
    DotKept lib arch spelling.before spelling.after spelling.name

def codePart (line : Text) : Text := line.takeWhile (· != '#')

/-- Where the line has a dot in front of its comment, what is kept of the operand around it
stands for the number of the operand. -/
def DotsKept (lib : Libseccomp) (line : Text) : Prop :=
  '.' ∈ codePart line → (dotSpelling (codePart line)).Kept lib

theorem identifier_no_space (c : Char) (inside : isIdentifier c = true) : isSpace c = false := by
  rw [Bool.eq_false_iff]
  intro space
  simp only [isSpace, Bool.or_eq_true, beq_iff_eq] at space
  rcases space with (((rfl | rfl) | rfl) | rfl) | rfl <;> revert inside <;> decide

section Words

variable {front arch before after name rest : Text}

theorem dot_spelling_words (free : '.' ∉ front ++ (arch ++ before))
    (archRun : Run isIdentifier arch.reverse front.reverse) (archNamed : arch ≠ [])
    (blankBefore : ∀ c ∈ before, isSpace c = true) (blankAfter : ∀ c ∈ after, isSpace c = true)
    (nameRun : Run isIdentifier name rest) (named : name ≠ []) :
    dotSpelling (front ++ (arch ++ (before ++ '.' :: (after ++ (name ++ rest))))) =
      { arch, before := before.length, after := after.length, name } := by
  have line : Run (· != '.') (front ++ (arch ++ before)) ('.' :: (after ++ (name ++ rest))) :=
    { all := fun c member => by
        rw [bne_iff_ne]
        rintro rfl
        exact free member
      ends := fun c head => by
        cases head
        rfl }
  have front_ : Run isSpace before.reverse (arch.reverse ++ front.reverse) :=
    { all := fun c member => blankBefore c (List.mem_reverse.mp member)
      ends := fun c head => by
        obtain ⟨last, others, same⟩ := List.exists_cons_of_ne_nil (List.reverse_ne_nil_iff.mpr archNamed)
        rw [same] at head archRun
        cases head
        exact identifier_no_space c (archRun.all c List.mem_cons_self) }
  have back : Run isSpace after (name ++ rest) :=
    { all := blankAfter
      ends := fun c head => by
        obtain ⟨first, others, rfl⟩ := List.exists_cons_of_ne_nil named
        cases head
        exact identifier_no_space c (nameRun.all c List.mem_cons_self) }
  have split : front ++ (arch ++ (before ++ '.' :: (after ++ (name ++ rest)))) =
      front ++ (arch ++ before) ++ '.' :: (after ++ (name ++ rest)) := by
    simp only [List.append_assoc]
  unfold dotSpelling
  rw [split, line.take_while, line.drop_while]
  simp only [List.reverse_append, List.append_assoc, List.tail_cons]
  rw [front_.take_while, front_.drop_while, back.take_while, back.drop_while, archRun.take_while,
    nameRun.take_while]
  simp only [List.reverse_reverse, List.length_reverse]

theorem dotted_literal :
    (arch ++ (before ++ '.' :: (after ++ (name ++ rest)))).take (arch.length + name.length + 1) =
      arch ++
        if name.length < before.length then before.take (name.length + 1)
        else before ++ '.' :: (after.take (name.length - before.length) ++
          name.take (name.length - (before.length + after.length))) := by
  rw [Nat.add_assoc, List.take_length_add_append]
  congr 1
  split
  · next short =>
      rw [List.take_append_of_le_length (by omega)]
  · next long =>
      have count : name.length + 1 = before.length + (name.length - before.length + 1) := by omega
      rw [count, List.take_length_add_append, List.take_succ_cons, List.take_append,
        List.take_append_of_le_length (by omega), Nat.sub_sub]

end Words

end Ceccomp
