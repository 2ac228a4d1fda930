import Mathlib.Data.Nat.Count

/-!
Dropping marked positions from a sequence. `span` counts the kept positions of
an interval, `compact` lists the kept values; a kept position is found again at
the number of kept positions before it.
-/

namespace Compact

universe u
variable {Value : Type u} (marked : Nat → Bool)

/-- How many positions from `low` up to, and without, `high` are kept. -/
def span (low high : Nat) : Nat := Nat.count (fun i => marked (low + i) = false) (high - low)

theorem span_self (low : Nat) : span marked low low = 0 := by simp [span]

theorem span_split {low mid high : Nat} (le : low ≤ mid) (le' : mid ≤ high) :
    span marked low high = span marked low mid + span marked mid high := by
  unfold span
  rw [show high - low = (mid - low) + (high - mid) by omega, Nat.count_add]
  congr 2
  funext i
  rw [show low + (mid - low + i) = mid + i by omega]

theorem span_congr {marked other : Nat → Bool} {low high : Nat}
    (same : ∀ i, low ≤ i → i < high → other i = marked i) :
    span other low high = span marked low high := by
  unfold span
  generalize size : high - low = n
  have bound : low + n ≤ high ∨ n = 0 := by omega
  clear size
  induction n with
  | zero => rfl
  | succ n ih =>
      rw [Nat.count_succ, Nat.count_succ, ih (by omega), same (low + n) (by omega) (by omega)]

theorem span_one (i : Nat) : span marked i (i + 1) = if marked i = false then 1 else 0 := by
  unfold span
  rw [show i + 1 - i = 0 + 1 by omega, Nat.count_succ]
  simp

theorem span_deleted (low high : Nat) (deleted : ∀ i, low ≤ i → i < high → marked i = true) :
    span marked low high = 0 := by
  unfold span
  rw [Nat.count_iff_forall_not.mpr]
  intro i less
  simp [deleted (low + i) (by omega) (by omega)]

theorem span_head {low high : Nat} (kept : marked low = false) (less : low < high)
    (deleted : ∀ i, low < i → i < high → marked i = true) : span marked low high = 1 := by
  rw [span_split marked (show low ≤ low + 1 by omega) (show low + 1 ≤ high by omega),
    span_one, if_pos kept, span_deleted marked _ _ (fun i above below => deleted i (by omega) below)]

def compact (value : Nat → Value) : Nat → Nat → List Value
  | 0, _ => []
  | count + 1, low =>
      let rest := compact value count (low + 1)
      if marked low then rest else value low :: rest

theorem compact_length (value : Nat → Value) (count low : Nat) :
    (compact marked value count low).length = span marked low (low + count) := by
  induction count generalizing low with
  | zero => simp [compact, span]
  | succ count ih =>
      have rest := ih (low + 1)
      rw [span_split marked (show low ≤ low + 1 by omega) (show low + 1 ≤ low + (count + 1) by omega),
        span_one, show low + (count + 1) = low + 1 + count by omega, ← rest, compact]
      cases marked low <;> simp
      omega

theorem compact_get (value : Nat → Value) (count low i : Nat) (kept : marked i = false)
    (above : low ≤ i) (below : i < low + count) :
    (compact marked value count low)[span marked low i]? = some (value i) := by
  induction count generalizing low with
  | zero => omega
  | succ count ih =>
      rw [compact]
      rcases Nat.eq_or_lt_of_le above with rfl | later
      · simp [kept, span_self]
      · rw [span_split marked (show low ≤ low + 1 by omega) later, span_one]
        have rest := ih (low + 1) later (by omega)
        cases mark : marked low with
        | true => simpa [mark] using rest
        | false =>
            simpa [Nat.add_comm 1] using rest

theorem compact_filter (value : Nat → Value) (count low : Nat) :
    compact marked value count low =
      ((List.range' low count).filter fun i => !marked i).map value := by
  induction count generalizing low with
  | zero => rfl
  | succ count ih =>
      rw [compact, List.range'_succ, List.filter_cons, ih (low + 1)]
      cases marked low <;> simp

end Compact
