import Mathlib.Logic.Function.Basic

/-!
Deterministic machines given by one step function. A step either goes on to
another state or stops with a result; a stuck machine is one whose result says
so. `after` follows a run step by step, `result` runs it on a step budget.
Nothing here knows which machine is run.
-/

namespace Machine

universe u v w
variable {State : Type u} {Other : Type v} {Result : Type w}

inductive Next (State : Type u) (Result : Type w) where
  | go (state : State)
  | stop (result : Result)

/-- The state a run is in after a number of steps, if it has not stopped yet. -/
def after (step : State → Next State Result) (start : State) : Nat → Option State
  | 0 => some start
  | n + 1 =>
      match after step start n with
      | none => none
      | some state =>
          match step state with
          | .go next => some next
          | .stop _ => none

/-- Run at most `fuel` steps and report the result if the machine stopped. -/
def result (step : State → Next State Result) : Nat → State → Option Result
  | 0, _ => none
  | fuel + 1, state =>
      match step state with
      | .go next => result step fuel next
      | .stop answer => some answer

theorem after_succ (step : State → Next State Result) (start : State) (n : Nat) (next : State) :
    after step start (n + 1) = some next ↔
      ∃ state, after step start n = some state ∧ step state = .go next := by
  simp only [after]
  cases reached : after step start n with
  | none => simp
  | some state =>
      cases moved : step state with
      | go target => simp [moved]
      | stop answer => simp [moved]

theorem after_invariant (step : State → Next State Result) (holds : State → Prop)
    (kept : ∀ state next, holds state → step state = .go next → holds next)
    (start : State) (initial : holds start) (n : Nat) (state : State)
    (reached : after step start n = some state) : holds state := by
  induction n generalizing state with
  | zero =>
      have same : start = state := by simpa [after] using reached
      exact same ▸ initial
  | succ n ih =>
      obtain ⟨before, early, moved⟩ := (after_succ step start n state).mp reached
      exact kept before state (ih before early) moved

/-- The same rule for a property that also looks at how long the run is and that
is kept only along the steps this run takes. -/
theorem after_invariant_along (step : State → Next State Result) (holds : Nat → State → Prop)
    (start : State) (initial : holds 0 start)
    (kept : ∀ n state next, after step start n = some state → step state = .go next →
      holds n state → holds (n + 1) next)
    (n : Nat) (state : State) (reached : after step start n = some state) : holds n state := by
  induction n generalizing state with
  | zero =>
      have same : start = state := by simpa [after] using reached
      exact same ▸ initial
  | succ n ih =>
      obtain ⟨before, early, moved⟩ := (after_succ step start n state).mp reached
      exact kept n before state early moved (ih before early)

theorem after_earlier (step : State → Next State Result) (start : State) (n m : Nat)
    (state : State) (reached : after step start n = some state) (le : m ≤ n) :
    ∃ earlier, after step start m = some earlier := by
  induction n generalizing state with
  | zero => exact ⟨state, by rwa [Nat.le_zero.mp le]⟩
  | succ n ih =>
      rcases Nat.lt_or_ge m (n + 1) with less | same
      · obtain ⟨before, early, _⟩ := (after_succ step start n state).mp reached
        exact ih before early (by omega)
      · exact ⟨state, by rwa [Nat.le_antisymm le same]⟩

theorem after_shift (step : State → Next State Result) (start next : State)
    (moved : step start = .go next) (n : Nat) :
    after step start (n + 1) = after step next n := by
  induction n with
  | zero => simp [after, moved]
  | succ n ih => rw [after, ih, after]

theorem result_go (step : State → Next State Result) (fuel : Nat) (state next : State)
    (moved : step state = .go next) : result step (fuel + 1) state = result step fuel next := by
  simp [result, moved]

theorem result_stop (step : State → Next State Result) (fuel : Nat) (state : State)
    (answer : Result) (stopped : step state = .stop answer) :
    result step (fuel + 1) state = some answer := by
  simp [result, stopped]

theorem result_mono (step : State → Next State Result) (fuel more : Nat) (state : State)
    (answer : Result) (enough : result step fuel state = some answer) (le : fuel ≤ more) :
    result step more state = some answer := by
  induction fuel generalizing more state with
  | zero => simp [result] at enough
  | succ fuel ih =>
      obtain ⟨rest, rfl⟩ : ∃ rest, more = rest + 1 := ⟨more - 1, by omega⟩
      simp only [result] at enough ⊢
      cases moved : step state with
      | go next =>
          simp only [moved] at enough ⊢
          exact ih rest next enough (by omega)
      | stop other => simpa only [moved] using enough

theorem result_of_rank (step : State → Next State Result) (holds : State → Prop)
    (rank : State → Nat)
    (kept : ∀ state next, holds state → step state = .go next →
      holds next ∧ rank next < rank state)
    (fuel : Nat) (state : State) (valid : holds state) (enough : rank state < fuel) :
    ∃ answer, result step fuel state = some answer := by
  induction fuel generalizing state with
  | zero => omega
  | succ fuel ih =>
      cases moved : step state with
      | stop answer => exact ⟨answer, result_stop step fuel state answer moved⟩
      | go next =>
          obtain ⟨nextValid, lower⟩ := kept state next valid moved
          obtain ⟨answer, found⟩ := ih next nextValid (by omega)
          exact ⟨answer, by rw [result_go step fuel state next moved, found]⟩

theorem result_last (step : State → Next State Result) (fuel : Nat) (start : State)
    (answer : Result) (found : result step fuel start = some answer) :
    ∃ n last, n < fuel ∧ after step start n = some last ∧ step last = .stop answer := by
  induction fuel generalizing start with
  | zero => simp [result] at found
  | succ fuel ih =>
      cases moved : step start with
      | stop other =>
          have same : other = answer := by simpa [result, moved] using found
          exact ⟨0, start, by omega, rfl, same ▸ moved⟩
      | go next =>
          rw [result_go step fuel start next moved] at found
          obtain ⟨n, last, bound, reached, stopped⟩ := ih next found
          exact ⟨n + 1, last, by omega, by rw [after_shift step start next moved, reached], stopped⟩

theorem result_of_after (step : State → Next State Result) (start : State) (n : Nat) (last : State)
    (answer : Result) (reached : after step start n = some last)
    (stopped : step last = .stop answer) : result step (n + 1) start = some answer := by
  induction n generalizing start with
  | zero =>
      obtain rfl : start = last := by simpa [after] using reached
      exact result_stop step 0 start answer stopped
  | succ n ih =>
      cases moved : step start with
      | stop other =>
          obtain ⟨first, early⟩ := after_earlier step start (n + 1) 1 last reached (by omega)
          simp [after, moved] at early
      | go next =>
          rw [after_shift step start next moved] at reached
          rw [result_go step (n + 1) start next moved]
          exact ih next reached

theorem result_congr (step other : State → Next State Result) (start : State)
    (same : ∀ n state, after step start n = some state → step state = other state) (fuel : Nat) :
    result step fuel start = result other fuel start := by
  induction fuel generalizing start with
  | zero => rfl
  | succ fuel ih =>
      have first := same 0 start rfl
      cases moved : step start with
      | stop answer =>
          rw [result_stop step fuel start answer moved,
            result_stop other fuel start answer (first ▸ moved)]
      | go next =>
          rw [result_go step fuel start next moved, result_go other fuel start next (first ▸ moved)]
          apply ih
          intro n state reached
          exact same (n + 1) state (by rwa [after_shift step start next moved])

theorem after_congr {Reply : Type*} (step : State → Next State Result)
    (other : State → Next State Reply)
    (alike : ∀ state next, step state = .go next ↔ other state = .go next) (start : State) (n : Nat) :
    after step start n = after other start n := by
  induction n with
  | zero => rfl
  | succ n ih =>
      refine Option.ext fun state => ?_
      rw [after_succ, after_succ, ih]
      constructor
      · rintro ⟨before, reached, moved⟩
        exact ⟨before, reached, (alike before state).mp moved⟩
      · rintro ⟨before, reached, moved⟩
        exact ⟨before, reached, (alike before state).mpr moved⟩

theorem result_view {View : Type*} (view : Result → View) (step other : State → Next State Result)
    (alike : ∀ state, (∃ next, step state = .go next ∧ other state = .go next) ∨
      ∃ answer reply, step state = .stop answer ∧ other state = .stop reply ∧
        view answer = view reply)
    (fuel : Nat) (start : State) :
    (result step fuel start).map view = (result other fuel start).map view := by
  induction fuel generalizing start with
  | zero => rfl
  | succ fuel ih =>
      rcases alike start with ⟨next, moved, also⟩ | ⟨answer, reply, stopped, also, same⟩
      · rw [result_go step fuel start next moved, result_go other fuel start next also]
        exact ih next
      · rw [result_stop step fuel start answer stopped, result_stop other fuel start reply also]
        exact congrArg some same

/-- One step of the left machine answered by one or more steps of the right one.
The relation may also stop both sides at once, with related results. -/
theorem result_simulation {Answer : Type*} (step : State → Next State Result)
    (other : Other → Next Other Answer) (related : State → Other → Prop)
    (answers : Result → Answer → Prop)
    (matched : ∀ state mirror, related state mirror →
      (∀ next, step state = .go next →
        ∃ reached, other mirror = .go reached ∧ related next reached) ∧
      (∀ answer, step state = .stop answer →
        ∃ same, other mirror = .stop same ∧ answers answer same))
    (fuel : Nat) (state : State) (mirror : Other) (start : related state mirror)
    (answer : Result) (found : result step fuel state = some answer) :
    ∃ same, result other fuel mirror = some same ∧ answers answer same := by
  induction fuel generalizing state mirror with
  | zero => simp [result] at found
  | succ fuel ih =>
      cases moved : step state with
      | stop stopped =>
          have same : stopped = answer := by simpa [result, moved] using found
          obtain ⟨reply, replied, agree⟩ := (matched state mirror start).2 stopped moved
          exact ⟨reply, result_stop other fuel mirror reply replied, same ▸ agree⟩
      | go next =>
          rw [result_go step fuel state next moved] at found
          obtain ⟨reached, replied, again⟩ := (matched state mirror start).1 next moved
          obtain ⟨reply, late, agree⟩ := ih next reached again found
          exact ⟨reply, by rw [result_go other fuel mirror reached replied, late], agree⟩

theorem result_after (step : State → Next State Result) (start next : State) (n fuel : Nat)
    (reached : after step start n = some next) (answer : Result)
    (found : result step fuel start = some answer) :
    ∃ rest, rest + n = fuel ∧ result step rest next = some answer := by
  induction n generalizing next with
  | zero =>
      obtain rfl : start = next := by simpa [after] using reached
      exact ⟨fuel, rfl, found⟩
  | succ n ih =>
      rcases (after_succ step start n next).mp reached with ⟨state, before, moved⟩
      rcases ih state before with ⟨rest, sum, late⟩
      cases rest with
      | zero => cases late
      | succ rest =>
          rw [result_go step rest state next moved] at late
          exact ⟨rest, by omega, late⟩

theorem shortcut_simulation {Answer : Type*} (step : State → Next State Result)
    (other : Other → Next Other Answer) (related : State → Other → Prop)
    (answers : Result → Answer → Prop)
    (matched : ∀ state same, related state same →
      (∃ n next reached, after step state (n + 1) = some next ∧ other same = .go reached ∧
        related next reached) ∨
      ∃ n last answer reply, after step state n = some last ∧ step last = .stop answer ∧
        other same = .stop reply ∧ answers answer reply)
    (fuel : Nat) (state : State) (same : Other) (start : related state same) (answer : Result)
    (found : result step fuel state = some answer) :
    ∃ reply, result other fuel same = some reply ∧ answers answer reply := by
  induction fuel using Nat.strongRecOn generalizing state same with
  | ind fuel ih =>
      rcases matched state same start with ⟨n, next, reached, run, moved, again⟩ |
        ⟨n, last, answer', reply, run, stops, stopped, agree⟩
      · -- the run of `step` is `n + 1` steps shorter from here on
        rcases result_after step state next (n + 1) fuel run answer found with ⟨rest, sum, late⟩
        rcases ih rest (by omega) next reached again late with ⟨reply, replied, agree⟩
        refine ⟨reply, ?_, agree⟩
        obtain ⟨fewer, rfl⟩ : ∃ fewer, fuel = fewer + 1 := ⟨fuel - 1, by omega⟩
        rw [result_go other fewer same reached moved]
        exact result_mono other rest fewer reached reply replied (by omega)
      · rcases result_after step state last n fuel run answer found with ⟨rest, sum, late⟩
        cases rest with
        | zero => cases late
        | succ rest =>
            rw [result_stop step rest last answer' stops] at late
            cases late
            obtain ⟨fewer, rfl⟩ : ∃ fewer, fuel = fewer + 1 := ⟨fuel - 1, by omega⟩
            exact ⟨reply, result_stop other fewer same reply stopped, agree⟩

/-- What a run lets be seen: the label of each state it reaches that has one. -/
def trace {Label : Type*} (step : State → Next State Result) (label : State → Option Label) :
    Nat → State → List Label
  | 0, _ => []
  | fuel + 1, state =>
      (label state).toList ++
        match step state with
        | .go next => trace step label fuel next
        | .stop _ => []

theorem trace_go {Label : Type*} (step : State → Next State Result)
    (label : State → Option Label) (fuel : Nat) (state next : State) (moved : step state = .go next) :
    trace step label (fuel + 1) state = (label state).toList ++ trace step label fuel next := by
  simp only [trace, moved]

theorem trace_stop {Label : Type*} (step : State → Next State Result)
    (label : State → Option Label) (fuel : Nat) (state : State) (answer : Result)
    (stopped : step state = .stop answer) :
    trace step label (fuel + 1) state = (label state).toList := by
  simp only [trace, stopped, List.append_nil]

theorem trace_more {Label : Type*} (step : State → Next State Result)
    (label : State → Option Label) (fuel more : Nat) (state : State) (answer : Result)
    (found : result step fuel state = some answer) (le : fuel ≤ more) :
    trace step label more state = trace step label fuel state := by
  induction fuel generalizing more state with
  | zero => simp [result] at found
  | succ fuel ih =>
      obtain ⟨rest, rfl⟩ : ∃ rest, more = rest + 1 := ⟨more - 1, by omega⟩
      cases moved : step state with
      | stop other => rw [trace_stop _ _ _ _ _ moved, trace_stop _ _ _ _ _ moved]
      | go next =>
          rw [result_go step fuel state next moved] at found
          rw [trace_go _ _ _ _ _ moved, trace_go _ _ _ _ _ moved, ih rest next found (by omega)]

/-- The left machine may take silent steps that the right one does not answer, as long
as a rank goes down; every other step is answered by one that shows the same. Then
both stop, with related results, and show the same. -/
theorem stuttering_simulation {Answer Label : Type*} (step : State → Next State Result)
    (other : Other → Next Other Answer) (label : State → Option Label)
    (otherLabel : Other → Option Label) (related : State → Other → Prop)
    (answers : Result → Answer → Prop) (rank : State → Nat)
    (matched : ∀ state mirror, related state mirror →
      (∃ next, step state = .go next ∧ label state = none ∧ related next mirror ∧
        rank next < rank state) ∨
      (∃ next reached, step state = .go next ∧ other mirror = .go reached ∧
        label state = otherLabel mirror ∧ related next reached ∧ rank next < rank state) ∨
      ∃ answer same, step state = .stop answer ∧ other mirror = .stop same ∧
        label state = otherLabel mirror ∧ answers answer same)
    (fuel : Nat) (state : State) (mirror : Other) (start : related state mirror)
    (enough : rank state < fuel) :
    ∃ answer same, result step fuel state = some answer ∧ result other fuel mirror = some same ∧
      answers answer same ∧ trace step label fuel state = trace other otherLabel fuel mirror := by
  induction fuel generalizing state mirror with
  | zero => omega
  | succ fuel ih =>
      rcases matched state mirror start with ⟨next, moved, silent, again, lower⟩ |
        ⟨next, reached, moved, replied, shown, again, lower⟩ |
        ⟨answer, same, stopped, replied, shown, agree⟩
      -- the mirror waits, while the rank goes down
      · obtain ⟨answer, same, found, there, agree, traces⟩ := ih next mirror again (by omega)
        refine ⟨answer, same, ?_, result_mono other fuel _ mirror same there (by omega), agree, ?_⟩
        · rw [result_go step fuel state next moved, found]
        · rw [trace_go step label fuel state next moved, silent, traces,
            trace_more other otherLabel fuel (fuel + 1) mirror same there (by omega)]
          rfl
      -- both move
      · obtain ⟨answer, same, found, there, agree, traces⟩ := ih next reached again (by omega)
        refine ⟨answer, same, ?_, ?_, agree, ?_⟩
        · rw [result_go step fuel state next moved, found]
        · rw [result_go other fuel mirror reached replied, there]
        · rw [trace_go step label fuel state next moved,
            trace_go other otherLabel fuel mirror reached replied, shown, traces]
      -- both stop
      · refine ⟨answer, same, result_stop step fuel state answer stopped,
          result_stop other fuel mirror same replied, agree, ?_⟩
        rw [trace_stop step label fuel state answer stopped,
          trace_stop other otherLabel fuel mirror same replied, shown]

end Machine
