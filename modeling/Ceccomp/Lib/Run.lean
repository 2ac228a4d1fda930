import Mathlib.Data.List.TakeWhile

/-!
Maximal runs. A list begins with a run of `p` when all of the run satisfies `p` and
what follows it does not start with such an element.
-/

namespace Ceccomp

variable {α : Type} {p : α → Bool}

structure Run (p : α → Bool) (word rest : List α) : Prop where
  all : ∀ c ∈ word, p c = true
  ends : ∀ c, rest.head? = some c → p c = false

theorem Run.tail {c : α} {word rest : List α} (run : Run p (c :: word) rest) : Run p word rest :=
  { all := fun other member => run.all other (List.mem_cons_of_mem c member)
    ends := run.ends }

theorem Run.take_while {word rest : List α} (run : Run p word rest) :
    (word ++ rest).takeWhile p = word := by
  induction word with
  | nil =>
      cases rest with
      | nil => rfl
      | cons c later =>
          have ends := run.ends c rfl
          simp [ends]
  | cons c word ih =>
      have head := run.all c List.mem_cons_self
      rw [List.cons_append, List.takeWhile_cons, head, if_pos rfl, ih run.tail]

theorem Run.drop_while {word rest : List α} (run : Run p word rest) :
    (word ++ rest).dropWhile p = rest := by
  have whole := List.takeWhile_append_dropWhile (p := p) (l := word ++ rest)
  rw [run.take_while] at whole
  exact List.append_cancel_left whole

theorem take_while_run (p : α → Bool) (list : List α) :
    Run p (list.takeWhile p) (list.dropWhile p) :=
  { all := fun c member => List.mem_takeWhile_imp member
    ends := fun c head => by
      have kept := List.head?_dropWhile_not p list
      rw [head] at kept
      simpa using kept }

theorem take_while_taken (p : α → Bool) (list : List α) :
    list.take (list.takeWhile p).length = list.takeWhile p :=
  (List.prefix_iff_eq_take.mp (List.takeWhile_prefix p)).symm

theorem Run.prefix_iff {word rest token : List α} (run : Run p word rest)
    (inside : ∀ c ∈ token, p c = true) : token <+: word ++ rest ↔ token <+: word := by
  induction token generalizing word with
  | nil => simp
  | cons t token ih =>
      have own := inside t List.mem_cons_self
      have later : ∀ c ∈ token, p c = true := fun c member => inside c (List.mem_cons_of_mem t member)
      cases word with
      | nil =>
          constructor
          · rintro ⟨behind, same⟩
            have ends := run.ends t (by rw [← List.nil_append rest, ← same]; rfl)
            rw [own] at ends
            cases ends
          · intro short
            cases List.prefix_nil.mp short
      | cons c word =>
          rw [List.cons_append, List.cons_prefix_cons, List.cons_prefix_cons, ih run.tail later]

/-- What begins the list, lies inside `p` and is not continued inside `p`, is the run. -/
theorem Run.whole_iff {word rest token : List α} (run : Run p word rest)
    (inside : ∀ c ∈ token, p c = true) :
    (token <+: word ++ rest ∧ ∀ c, (word ++ rest)[token.length]? = some c → p c = false) ↔
      token = word := by
  rw [run.prefix_iff inside]
  constructor
  · rintro ⟨⟨behind, same⟩, ends⟩
    subst same
    cases behind with
    | nil => rw [List.append_nil]
    | cons c later =>
        have next := ends c (by simp)
        rw [run.all c (by simp)] at next
        cases next
  · rintro rfl
    constructor
    · apply List.prefix_refl
    · intro c found
      apply run.ends c
      rw [List.getElem?_append_right (Nat.le_refl _), Nat.sub_self] at found
      rw [List.head?_eq_getElem?, found]

end Ceccomp
