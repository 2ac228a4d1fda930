import Ceccomp.Text.Parser

/-!
How parse actions run: equations that turn an action, bound to what follows it,
into a case distinction on the next token, and the states an action can end in.
-/

namespace Ceccomp

namespace Parser

section Runs

variable {α β : Type}

theorem bind_run (action : Parse α) (next : α → Parse β) (s : Tokens) :
    (action >>= next) s =
      match action s with
      | .ok a after => next a after
      | .error stop after => .error stop after := by
  show EStateM.bind action next s = _
  unfold EStateM.bind
  cases action s <;> rfl

theorem bind_ok (action : Parse α) (next : α → Parse β) (s : Tokens) (b : β) (last : Tokens) :
    (action >>= next) s = .ok b last ↔
      ∃ a after, action s = .ok a after ∧ next a after = .ok b last := by
  rw [bind_run]
  constructor
  · intro ran
    cases done : action s with
    | ok a after => exact ⟨a, after, rfl, by simpa [done] using ran⟩
    | error stop after => simp [done] at ran
  · rintro ⟨a, after, done, ran⟩
    simpa [done] using ran

theorem pure_run (a : α) (s : Tokens) : (pure a : Parse α) s = .ok a s := rfl

theorem get_bind (next : Tokens → Parse β) (s : Tokens) :
    ((get : Parse Tokens) >>= next) s = next s s := rfl

theorem advance_bind (next : Unit → Parse β) (s : Tokens) :
    (advance >>= next) s = next () s.advance := rfl

theorem peek_bind (expected : TokenType) (next : Bool → Parse β) (s : Tokens) :
    (peek expected >>= next) s = next (s.next.type == expected) s := rfl

theorem match_bind (expected : TokenType) (next : Bool → Parse β) (s : Tokens) :
    (match_ expected >>= next) s =
      if s.next.type = expected then next true s.advance else next false s := by
  by_cases same : s.next.type = expected
  · simp [match_, bind_assoc, peek_bind, advance_bind, same]
  · simp [match_, bind_assoc, peek_bind, same]

theorem match_run (expected : TokenType) (s : Tokens) :
    match_ expected s = if s.next.type = expected then .ok true s.advance else .ok false s := by
  have bound := match_bind expected pure s
  rwa [bind_pure] at bound

theorem match_from_to_bind (start stop : TokenType) (next : Bool → Parse β) (s : Tokens) :
    (matchFromTo start stop >>= next) s =
      if s.next.type.fromTo start stop then next true s.advance else next false s := by
  by_cases inside : s.next.type.fromTo start stop = true
  · simp [matchFromTo, bind_assoc, get_bind, advance_bind, inside]
  · simp [matchFromTo, bind_assoc, get_bind, inside]

theorem raise_at_run (token : Token) (message : Message) (comment : Option Nat) (s : Tokens) :
    (raiseAt token message comment : Parse α) s =
      .error (.raised token.start message comment) (s.sync s.syncFuel) := rfl

theorem error_at_run (token : Token) (message : Message) (s : Tokens) :
    (errorAt token message : Parse α) s =
      .error (.raised token.start message (some 0)) (s.sync s.syncFuel) := rfl

theorem error_next_run (message : Message) (s : Tokens) :
    (errorNext message : Parse α) s =
      .error (.raised s.next.start message (some 0)) (s.sync s.syncFuel) := rfl

theorem error_at_bind (token : Token) (message : Message) (next : α → Parse β) (s : Tokens) :
    (errorAt token message >>= next) s =
      .error (.raised token.start message (some 0)) (s.sync s.syncFuel) := rfl

theorem error_next_bind (message : Message) (next : α → Parse β) (s : Tokens) :
    (errorNext message >>= next) s =
      .error (.raised s.next.start message (some 0)) (s.sync s.syncFuel) := rfl

theorem error_current_bind (message : Message) (next : α → Parse β) (s : Tokens) :
    (errorCurrent message >>= next) s =
      .error (.raised s.current.start message (some 0)) (s.sync s.syncFuel) := rfl

theorem match_number_bind (next : Bool → Parse β) (s : Tokens) :
    (matchNumber >>= next) s =
      if s.next.type = .number then next true s.advance
      else if s.next.type = .overflowNumber then
        .error (.raised s.next.start .numberOverflow (some 0)) (s.sync s.syncFuel)
      else next false s := by
  unfold matchNumber
  rw [bind_assoc, match_bind]
  by_cases number : s.next.type = .number
  · simp [number]
  · by_cases overflow : s.next.type = .overflowNumber
    · simp [bind_assoc, peek_bind, overflow, error_next_bind]
    · simp [bind_assoc, peek_bind, number, overflow]

theorem literal_from_bind (start : Text) (next : Text → Parse β) (s : Tokens) :
    (literalFrom start >>= next) s =
      next (start.take (start.length - s.current.start.length + s.current.len)) s := rfl

theorem ite_run (condition : Prop) [Decidable condition] (first second : Parse α) (s : Tokens) :
    (if condition then first else second) s = if condition then first s else second s := by
  split <;> rfl

theorem ite_bind (condition : Prop) [Decidable condition] (first second : Parse α)
    (next : α → Parse β) :
    (if condition then first else second) >>= next =
      if condition then first >>= next else second >>= next := by
  split <;> rfl

end Runs

end Parser

inductive Tokens.Reaches (start : Tokens) : Tokens → Prop where
  | here : Tokens.Reaches start start
  | advance (tokens : Tokens) (early : Tokens.Reaches start tokens) :
      Tokens.Reaches start tokens.advance

theorem reaches_trans (a b c : Tokens) (first : a.Reaches b) (second : b.Reaches c) :
    a.Reaches c := by
  induction second with
  | here => exact first
  | advance tokens _ ih => exact ih.advance

end Ceccomp
