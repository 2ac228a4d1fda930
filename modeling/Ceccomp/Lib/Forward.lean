import Mathlib.Logic.Function.Basic

/-!
Facts handed forward through a program whose edges all point to later positions.
Position `n` is looked at after all earlier ones; it sends facts to later
positions, and a table merges what each position was sent. The rules say what a
position still knows, when its turn comes, about a fact it was sent.
-/

namespace Forward

universe u
variable {Fact : Type u}

def absorbOne (merge : Fact → Fact → Fact) (table : Nat → Fact) (sent : Nat × Fact) : Nat → Fact :=
  Function.update table sent.1 (merge (table sent.1) sent.2)

def absorb (merge : Fact → Fact → Fact) (table : Nat → Fact) (sent : List (Nat × Fact)) :
    Nat → Fact :=
  sent.foldl (absorbOne merge) table

theorem absorb_nil (merge : Fact → Fact → Fact) (table : Nat → Fact) :
    absorb merge table [] = table := rfl

theorem absorb_cons (merge : Fact → Fact → Fact) (table : Nat → Fact) (sent : Nat × Fact)
    (rest : List (Nat × Fact)) :
    absorb merge table (sent :: rest) = absorb merge (absorbOne merge table sent) rest := rfl

theorem absorb_congr (merge : Fact → Fact → Fact) (table other : Nat → Fact)
    (sent : List (Nat × Fact)) (idx : Nat) (same : table idx = other idx) :
    absorb merge table sent idx = absorb merge other sent idx := by
  induction sent generalizing table other with
  | nil => exact same
  | cons one rest ih =>
      rw [absorb_cons, absorb_cons]
      apply ih
      by_cases here : idx = one.1
      · subst here
        simp [absorbOne, same]
      · simpa [absorbOne, here] using same

/-- A property of one entry survives a batch when merging each fact sent to it does. -/
theorem absorb_kept (merge : Fact → Fact → Fact) (holds : Fact → Prop)
    (table : Nat → Fact) (sent : List (Nat × Fact)) (idx : Nat)
    (kept : ∀ old fact, (idx, fact) ∈ sent → holds old → holds (merge old fact))
    (before : holds (table idx)) : holds (absorb merge table sent idx) := by
  induction sent generalizing table with
  | nil => exact before
  | cons one rest ih =>
      rw [absorb_cons]
      apply ih _ (fun old fact member => kept old fact (List.mem_cons_of_mem one member))
      by_cases same : idx = one.1
      · subst same
        simpa [absorbOne] using kept _ one.2 (by simp) before
      · simpa [absorbOne, same] using before

theorem absorb_invariant (merge : Fact → Fact → Fact) (holds : Fact → Prop)
    (kept : ∀ old new, holds old → holds (merge old new))
    (table : Nat → Fact) (sent : List (Nat × Fact)) (idx : Nat) (before : holds (table idx)) :
    holds (absorb merge table sent idx) :=
  absorb_kept merge holds table sent idx (fun old fact _ => kept old fact) before

/-- What merging does not take away an entry lacks because of itself or of a fact sent to it. -/
theorem absorb_blame (merge : Fact → Fact → Fact) (holds : Fact → Prop)
    (both : ∀ old new, holds old → holds new → holds (merge old new))
    (table : Nat → Fact) (sent : List (Nat × Fact)) (idx : Nat)
    (lacks : ¬ holds (absorb merge table sent idx)) :
    ¬ holds (table idx) ∨ ∃ fact, (idx, fact) ∈ sent ∧ ¬ holds fact := by
  by_contra none_
  rw [not_or, not_not] at none_
  apply lacks
  apply absorb_kept merge holds table sent idx _ none_.1
  intro old fact member before
  apply both old fact before
  by_contra bad
  exact none_.2 ⟨fact, member, bad⟩

theorem absorb_other (merge : Fact → Fact → Fact) (table : Nat → Fact) (sent : List (Nat × Fact))
    (idx : Nat) (untouched : ∀ one ∈ sent, one.1 ≠ idx) :
    absorb merge table sent idx = table idx := by
  induction sent generalizing table with
  | nil => rfl
  | cons one rest ih =>
      rw [absorb_cons, ih _ (fun other member => untouched other (List.mem_cons_of_mem one member))]
      have apart := untouched one List.mem_cons_self
      simp [absorbOne, Ne.symm apart]

theorem absorb_received (merge : Fact → Fact → Fact) (knows : Fact → Fact → Prop)
    (own : ∀ old new, knows (merge old new) new)
    (kept : ∀ old new known, knows old known → knows (merge old new) known)
    (table : Nat → Fact) (sent : List (Nat × Fact)) (idx : Nat) (fact : Fact)
    (member : (idx, fact) ∈ sent) : knows (absorb merge table sent idx) fact := by
  induction sent generalizing table with
  | nil => simp at member
  | cons one rest ih =>
      rw [absorb_cons]
      rcases List.mem_cons.mp member with same | later
      · apply absorb_invariant merge (fun known => knows known fact)
          (fun old new => kept old new fact)
        subst same
        simpa [absorbOne] using own (table idx) fact
      · exact ih _ later

theorem absorb_settles (merge : Fact → Fact → Fact) (holds : Fact → Prop)
    (table : Nat → Fact) (sent : List (Nat × Fact)) (idx : Nat)
    (own : ∀ old fact, (idx, fact) ∈ sent → holds (merge old fact)) (fact : Fact)
    (member : (idx, fact) ∈ sent) : holds (absorb merge table sent idx) := by
  induction sent generalizing table fact with
  | nil => simp at member
  | cons one rest ih =>
      rw [absorb_cons]
      by_cases again : ∃ later, (idx, later) ∈ rest
      · obtain ⟨later, there⟩ := again
        exact ih _ (fun old fact member => own old fact (List.mem_cons_of_mem one member)) later there
      · have same : one = (idx, fact) := by
          rcases List.mem_cons.mp member with same | there
          · exact same.symm
          · exact absurd ⟨fact, there⟩ again
        have others : ∀ other ∈ rest, other.1 ≠ idx := by
          rintro ⟨target, later⟩ there rfl
          exact again ⟨later, there⟩
        rw [absorb_other merge _ rest idx others, same]
        simpa [absorbOne] using own (table idx) fact member

/-- What no position in between takes away from the entry of `idx` is still there when
its turn comes. -/
theorem entry_kept (table : Nat → Nat → Fact) (holds : Fact → Prop) (first idx : Nat)
    (le : first ≤ idx) (before : holds (table first idx))
    (kept : ∀ n, first ≤ n → n < idx → holds (table n idx) → holds (table (n + 1) idx)) :
    holds (table idx idx) := by
  have all (count : Nat) (inside : first + count ≤ idx) : holds (table (first + count) idx) := by
    induction count with
    | zero => exact before
    | succ count ih => exact kept (first + count) (by omega) (by omega) (ih (by omega))
  have last := all (idx - first) (by omega)
  rwa [show first + (idx - first) = idx by omega] at last

section Tables

variable (merge : Fact → Fact → Fact)
-- `table n` is the table when position `n` is looked at, `sent n` what it sends.
variable (table : Nat → Nat → Fact) (sent : Nat → List (Nat × Fact))
variable (moves : ∀ n idx, n < idx → table (n + 1) idx = absorb merge (table n) (sent n) idx)

include moves

theorem table_invariant (holds : Fact → Prop)
    (kept : ∀ old new, holds old → holds (merge old new))
    (first n idx : Nat) (le : first ≤ n) (ahead : n ≤ idx) (before : holds (table first idx)) :
    holds (table n idx) := by
  induction n with
  | zero => exact Nat.le_zero.mp le ▸ before
  | succ n ih =>
      rcases Nat.lt_or_ge first (n + 1) with less | same
      · rw [moves n idx (by omega)]
        exact absorb_invariant merge holds kept _ _ _ (ih (by omega) (by omega))
      · exact Nat.le_antisymm le same ▸ before

theorem table_received (knows : Fact → Fact → Prop)
    (own : ∀ old new, knows (merge old new) new)
    (kept : ∀ old new known, knows old known → knows (merge old new) known)
    (source idx : Nat) (fact : Fact) (forward : source < idx)
    (member : (idx, fact) ∈ sent source) : knows (table idx idx) fact := by
  have received : knows (table (source + 1) idx) fact := by
    rw [moves source idx forward]
    exact absorb_received merge knows own kept _ _ _ _ member
  exact table_invariant merge table sent moves (fun known => knows known fact)
    (fun old new => kept old new fact) (source + 1) idx idx forward (Nat.le_refl idx) received

/-- What the entry of `idx` lacks when its turn comes, it lacked from the start, or a fact sent
to it did. -/
theorem table_blame (holds : Fact → Prop)
    (both : ∀ old new, holds old → holds new → holds (merge old new)) (idx : Nat)
    (lacks : ¬ holds (table idx idx)) :
    ¬ holds (table 0 idx) ∨ ∃ n < idx, ∃ fact, (idx, fact) ∈ sent n ∧ ¬ holds fact := by
  by_contra none_
  rw [not_or, not_not] at none_
  apply lacks
  apply entry_kept table holds 0 idx (Nat.zero_le idx) none_.1
  intro n _ less before
  rw [moves n idx less]
  by_contra bad
  rcases absorb_blame merge holds both _ _ _ bad with own | ⟨fact, member, missing⟩
  · exact own before
  · exact none_.2 ⟨n, less, fact, member, missing⟩

end Tables

end Forward
