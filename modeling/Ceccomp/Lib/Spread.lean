import Ceccomp.Lib.Compact

/-!
A sequence spread apart: position `i` moves to `place i`, and the room between
two places is filled with marked positions. Counting and listing what is kept
give the same as before.
-/

namespace Spread

open Compact (span compact)

universe u
variable {Value : Type u} (size : Nat → Nat)

def place : Nat → Nat
  | 0 => 0
  | n + 1 => place n + size n

theorem place_succ (n : Nat) : place size (n + 1) = place size n + size n := rfl

theorem place_le {i j : Nat} (le : i ≤ j) : place size i ≤ place size j := by
  induction j with
  | zero => simp [Nat.le_zero.mp le]
  | succ j ih =>
      rcases Nat.eq_or_lt_of_le le with rfl | less
      · exact Nat.le_refl _
      · have before := ih (Nat.le_of_lt_succ less)
        rw [place_succ]
        omega

def Roomy (n : Nat) : Prop := ∀ i, i < n → 0 < size i

variable {size} {n : Nat}

theorem place_lt (roomy : Roomy size n) {i j : Nat} (less : i < j) (le : j ≤ n) :
    place size i < place size j := by
  have own := roomy i (by omega)
  have later := place_le size (show i + 1 ≤ j from less)
  rw [place_succ] at later
  omega

theorem place_inj (roomy : Roomy size n) {i j : Nat} (left : i ≤ n) (right : j ≤ n)
    (same : place size i = place size j) : i = j := by
  rcases Nat.lt_trichotomy i j with less | equal | greater
  · have := place_lt roomy less right
    omega
  · exact equal
  · have := place_lt roomy greater left
    omega

theorem place_ge (roomy : Roomy size n) {i j : Nat} (le : i ≤ j) (bound : j ≤ n) :
    j - i ≤ place size j - place size i := by
  induction j with
  | zero => omega
  | succ j ih =>
      rcases Nat.eq_or_lt_of_le le with rfl | less
      · omega
      · have before := ih (Nat.le_of_lt_succ less) (by omega)
        have own := roomy j (by omega)
        have grows := place_le size (Nat.le_of_lt_succ less)
        rw [place_succ]
        omega

theorem place_cover (k : Nat) (below : k < place size n) :
    ∃ i j, i < n ∧ j < size i ∧ k = place size i + j := by
  induction n with
  | zero => exact absurd below (Nat.not_lt_zero k)
  | succ n ih =>
      rcases Nat.lt_or_ge k (place size n) with early | late
      · obtain ⟨i, j, less, small, same⟩ := ih early
        exact ⟨i, j, by omega, small, same⟩
      · rw [place_succ] at below
        exact ⟨n, k - place size n, by omega, by omega, by omega⟩

variable (size n) in
/-- Places keep their mark, and what is between them is marked. -/
structure Spreads (marked spread : Nat → Bool) : Prop where
  starts : ∀ i, i < n → spread (place size i) = marked i
  inner : ∀ i, i < n → ∀ j, 0 < j → j < size i → spread (place size i + j) = true

variable {marked spread : Nat → Bool}

theorem span_group (roomy : Roomy size n) (spreads : Spreads size n marked spread) {i : Nat}
    (inside : i < n) :
    span spread (place size i) (place size (i + 1)) = span marked i (i + 1) := by
  have own := roomy i inside
  have inner (k : Nat) (above : place size i < k) (below : k < place size (i + 1)) :
      spread k = true := by
    rw [place_succ] at below
    have place : k = place size i + (k - place size i) := by omega
    rw [place]
    exact spreads.inner i inside _ (by omega) (by omega)
  have start := spreads.starts i inside
  rw [Compact.span_one]
  cases mark : marked i with
  | false =>
      rw [mark] at start
      rw [if_pos rfl, Compact.span_head spread start (by rw [place_succ]; omega) inner]
  | true =>
      rw [mark] at start
      rw [if_neg (by simp), Compact.span_deleted]
      intro k above below
      rcases Nat.eq_or_lt_of_le above with rfl | later
      · exact start
      · exact inner k later below

theorem span_place (roomy : Roomy size n) (spreads : Spreads size n marked spread) {i j : Nat}
    (le : i ≤ j) (bound : j ≤ n) :
    span spread (place size i) (place size j) = span marked i j := by
  induction j with
  | zero =>
      obtain rfl := Nat.le_zero.mp le
      simp [Compact.span_self]
  | succ j ih =>
      rcases Nat.eq_or_lt_of_le le with rfl | less
      · simp [Compact.span_self]
      · rw [Compact.span_split spread (place_le size (Nat.le_of_lt_succ less))
            (place_le size (Nat.le_succ j)),
          Compact.span_split marked (Nat.le_of_lt_succ less) (Nat.le_succ j),
          ih (Nat.le_of_lt_succ less) (by omega), span_group roomy spreads (by omega)]

theorem compact_marked (value : Nat → Value) (count low : Nat)
    (deleted : ∀ k, low ≤ k → k < low + count → marked k = true) :
    compact marked value count low = [] := by
  induction count generalizing low with
  | zero => rfl
  | succ count ih =>
      rw [compact, deleted low (Nat.le_refl _) (by omega)]
      exact ih (low + 1) fun k above below => deleted k (by omega) (by omega)

theorem compact_append (value : Nat → Value) (first count low : Nat) :
    compact marked value (first + count) low =
      compact marked value first low ++ compact marked value count (low + first) := by
  induction first generalizing low with
  | zero => simp [compact]
  | succ first ih =>
      rw [Nat.add_right_comm, compact, ih (low + 1), compact,
        show low + 1 + first = low + (first + 1) by omega]
      cases marked low <;> simp

theorem compact_place (roomy : Roomy size n) (spreads : Spreads size n marked spread)
    (value moved : Nat → Value)
    (same : ∀ i, i < n → marked i = false → moved (place size i) = value i)
    (low count : Nat) (bound : low + count ≤ n) :
    compact spread moved (place size (low + count) - place size low) (place size low) =
      compact marked value count low := by
  induction count with
  | zero => simp [compact]
  | succ count ih =>
      have before := place_le size (show low ≤ low + count by omega)
      have own := roomy (low + count) (by omega)
      rw [← Nat.add_assoc, place_succ,
        show place size (low + count) + size (low + count) - place size low =
          (place size (low + count) - place size low) + (1 + (size (low + count) - 1)) by omega,
        compact_append, ih (by omega), compact_append, compact_append,
        show place size low + (place size (low + count) - place size low) =
          place size (low + count) by omega]
      have inner : compact spread moved (size (low + count) - 1)
          (place size (low + count) + 1) = [] :=
        compact_marked moved _ _ fun k above below => by
          have split : k = place size (low + count) + (k - place size (low + count)) := by omega
          rw [split]
          exact spreads.inner (low + count) (by omega) _ (by omega) (by omega)
      have start := spreads.starts (low + count) (by omega)
      rw [inner, List.append_nil, compact, compact, start]
      cases mark : marked (low + count) with
      | true => simp [compact, mark]
      | false => simp [compact, mark, same (low + count) (by omega) mark]

end Spread
