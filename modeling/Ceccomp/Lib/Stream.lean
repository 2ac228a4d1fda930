import Mathlib.Data.List.Basic

/-!
Reading from a descriptor whose data arrive piece by piece. A read takes what has arrived,
at most what was asked for, and nothing once the writer is done. Two loops around it are
here: one fills a buffer of fixed size, the other reads to the end and enlarges the buffer
by a block whenever it is full.
-/

namespace Stream

universe u
variable {Item : Type u}

/-- What the next read of a descriptor finds. -/
inductive Arrival (Item : Type u) where
  | data (items : List Item)
  | failure (errno : Nat)

/-- One read: what it returns, and what is left to arrive. -/
def read (todo : Nat) : List (Arrival Item) → Except Nat (List Item × List (Arrival Item))
  | [] => .ok ([], [])
  | .failure errno :: _ => .error errno
  | .data items :: later =>
      -- what does not fit waits for the next read
      .ok (items.take todo,
        if items.length ≤ todo then later else .data (items.drop todo) :: later)

def waiting : List (Arrival Item) → Nat
  | [] => 0
  | .failure _ :: later => waiting later
  | .data items :: later => items.length + waiting later

theorem read_waiting (todo : Nat) (arrivals left : List (Arrival Item)) (items : List Item)
    (done : read todo arrivals = .ok (items, left)) :
    items.length + waiting left = waiting arrivals := by
  cases arrivals with
  | nil =>
      cases done
      rfl
  | cons arrival later =>
      cases arrival with
      | failure errno => cases done
      | data arrived =>
          cases done
          by_cases fits : arrived.length ≤ todo
          · rw [if_pos fits, List.take_of_length_le fits, waiting]
          · rw [if_neg fits, waiting, waiting, List.length_take, List.length_drop]
            omega

def fill (todo : Nat) (arrivals : List (Arrival Item)) : Except Nat (List Item) :=
  if todo = 0 then .ok []
  else
    match read todo arrivals with
    | .error errno => .error errno
    | .ok ([], _) => .ok []
    | .ok (item :: items, left) =>
        (fill (todo - (items.length + 1)) left).map fun later => item :: items ++ later
termination_by todo

/-- Reads until nothing comes: the contents, and the size of the buffer at the end. The
buffer cannot be enlarged to `limit`. -/
def grow (block limit size todo : Nat) (arrivals : List (Arrival Item)) :
    Except Nat (Option (List Item × Nat)) :=
  match reply : read todo arrivals with
  | .error errno => .error errno
  | .ok ([], _) => .ok (some ([], size))
  | .ok (item :: items, left) =>
      let todo := todo - (items.length + 1)
      let full := todo = 0
      if full ∧ limit ≤ size + block then .ok none
      else
        (grow block limit (if full then size + block else size) (if full then block else todo)
          left).map fun done => done.map fun (later, size) => (item :: items ++ later, size)
termination_by waiting arrivals
decreasing_by
  have less := read_waiting _ _ _ _ reply
  rw [List.length_cons] at less
  omega

/-- All of `items` arrive, cut anywhere, and then the end. -/
inductive Delivers : List (Arrival Item) → List Item → Prop
  | done : Delivers [] []
  | piece (first : Item) (piece later : List Item) (arrivals : List (Arrival Item))
      (rest : Delivers arrivals later) :
      Delivers (.data (first :: piece) :: arrivals) (first :: piece ++ later)

theorem delivers_whole (items : List Item) (some_ : items ≠ []) :
    Delivers [.data items] items := by
  cases items with
  | nil => exact absurd rfl some_
  | cons first rest =>
      have whole := Delivers.piece first rest [] [] .done
      rw [List.append_nil] at whole
      exact whole

theorem delivers_read (todo : Nat) (some_ : 0 < todo) (arrivals : List (Arrival Item))
    (items : List Item) (delivers : Delivers arrivals items) :
    (items = [] ∧ read todo arrivals = .ok ([], [])) ∨
      ∃ first piece later left, items = first :: piece ++ later ∧ piece.length < todo ∧
        read todo arrivals = .ok (first :: piece, left) ∧ Delivers left later := by
  cases delivers with
  | done => exact Or.inl ⟨rfl, rfl⟩
  | piece first piece later arrivals rest =>
      right
      by_cases fits : (first :: piece).length ≤ todo
      · refine ⟨first, piece, later, arrivals, rfl, fits, ?_, rest⟩
        rw [read, if_pos fits, List.take_of_length_le fits]
      · obtain ⟨more, rfl⟩ : ∃ more, todo = more + 1 := ⟨todo - 1, by omega⟩
        have behind : piece.drop more ≠ [] := by
          rw [ne_eq, List.drop_eq_nil_iff]
          rw [List.length_cons] at fits
          omega
        obtain ⟨next, rest', split⟩ := List.exists_cons_of_ne_nil behind
        refine ⟨first, piece.take more, piece.drop more ++ later,
          .data (piece.drop more) :: arrivals, ?_, ?_, ?_, ?_⟩
        · rw [List.cons_append, List.cons_append, ← List.append_assoc, List.take_append_drop]
        · exact Nat.lt_succ_of_le (List.length_take_le _ _)
        · rw [read, if_neg fits]
          rfl
        · rw [split]
          exact .piece next rest' later arrivals rest

theorem fill_delivers (todo : Nat) (arrivals : List (Arrival Item)) (items : List Item)
    (delivers : Delivers arrivals items) : fill todo arrivals = .ok (items.take todo) := by
  induction todo using Nat.strongRecOn generalizing arrivals items with
  | ind todo ih =>
      rw [fill]
      by_cases full : todo = 0
      · rw [if_pos full, full, List.take_zero]
      · rw [if_neg full]
        rcases delivers_read todo (Nat.pos_of_ne_zero full) arrivals items delivers with
          ⟨rfl, done⟩ | ⟨first, piece, later, left, rfl, short, done, rest⟩
        · rw [done, List.take_nil]
        · have whole : (first :: piece).take todo = first :: piece :=
            List.take_of_length_le (Nat.succ_le_of_lt short)
          simp only [done, ih (todo - (piece.length + 1)) (by omega) left later rest, Except.map]
          rw [List.take_append, whole, List.length_cons]

theorem grow_end (block limit size todo : Nat) (arrivals left : List (Arrival Item))
    (done : read todo arrivals = .ok ([], left)) :
    grow block limit size todo arrivals = .ok (some ([], size)) := by
  rw [grow]
  split
  · next reply => rw [done] at reply; cases reply
  · rfl
  · next reply => rw [done] at reply; cases reply

theorem grow_piece (block limit size todo : Nat) (arrivals left : List (Arrival Item))
    (first : Item) (piece : List Item) (done : read todo arrivals = .ok (first :: piece, left)) :
    grow block limit size todo arrivals =
      if todo - (piece.length + 1) = 0 ∧ limit ≤ size + block then .ok none
      else
        (grow block limit (if todo - (piece.length + 1) = 0 then size + block else size)
          (if todo - (piece.length + 1) = 0 then block else todo - (piece.length + 1)) left).map
          fun done => done.map fun (later, size) => (first :: piece ++ later, size) := by
  rw [grow]
  split
  · next reply => rw [done] at reply; cases reply
  · next reply => rw [done] at reply; cases reply
  · next reply =>
      rw [done] at reply
      cases reply
      rfl

/-- Every item ends up in the buffer, and something of it is always left, unless they fill the
largest buffer there can be. -/
theorem grow_delivers (block limit : Nat) (some_ : 0 < block) (blocks : block ∣ limit)
    (size todo : Nat) (room : 0 < todo) (fits : todo ≤ size) (whole : block ∣ size)
    (small : size < limit) (arrivals : List (Arrival Item)) (items : List Item)
    (delivers : Delivers arrivals items) :
    (size - todo + items.length < limit - block ∧
      ∃ size', grow block limit size todo arrivals = .ok (some (items, size')) ∧
        size - todo + items.length < size' ∧
        size' ≤ size - todo + items.length + max todo block ∧ size' < limit) ∨
    (limit - block ≤ size - todo + items.length ∧
      grow block limit size todo arrivals = .ok none) := by
  induction length : items.length using Nat.strongRecOn
      generalizing arrivals items size todo with
  | ind count ih =>
      -- the next size is a multiple of the block too
      have below : size + block ≤ limit := by
        obtain ⟨many, rfl⟩ := blocks
        obtain ⟨few, rfl⟩ := whole
        have less : few < many := Nat.lt_of_mul_lt_mul_left small
        have next : block * (few + 1) ≤ block * many := Nat.mul_le_mul_left block less
        rwa [Nat.mul_succ] at next
      rcases delivers_read todo room arrivals items delivers with
        ⟨rfl, done⟩ | ⟨first, piece, later, left, rfl, short, done, rest⟩
      · rw [List.length_nil] at length
        exact Or.inl ⟨by omega, size, grow_end block limit size todo arrivals [] done, by omega,
          by omega, small⟩
      · rw [List.length_append, List.length_cons] at length
        rw [grow_piece block limit size todo arrivals left first piece done]
        by_cases last : todo - (piece.length + 1) = 0 ∧ limit ≤ size + block
        · rw [if_pos last]
          exact Or.inr ⟨by omega, rfl⟩
        · rw [if_neg last]
          rcases ih later.length (by omega)
              (if todo - (piece.length + 1) = 0 then size + block else size)
              (if todo - (piece.length + 1) = 0 then block else todo - (piece.length + 1))
              (by split <;> omega) (by split <;> omega)
              (by
                split
                · exact Nat.dvd_add whole (Nat.dvd_refl block)
                · exact whole)
              (by split <;> omega) left later rest rfl with
            ⟨few, size', all, held, bound, under⟩ | ⟨many, none_⟩
          · refine Or.inl ⟨by split at few <;> omega, size', ?_, ?_, ?_, under⟩
            · simp only [all, Except.map, Option.map_some]
            · split at held <;> omega
            · split at bound <;> omega
          · refine Or.inr ⟨by split at many <;> omega, ?_⟩
            simp only [none_, Except.map, Option.map_none]

end Stream
