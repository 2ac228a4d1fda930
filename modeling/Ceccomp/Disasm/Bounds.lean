import Ceccomp.Disasm.Render

/-!
A traced filter is copied from memory that the tracee may have changed meanwhile and
is decoded without `check_prog`. What its fields have to keep to, so that the tables,
the contexts and the slots are not left.
-/

namespace Ceccomp

def pileSize (len : Nat) : Nat := (len * 40 + 0xfff) / 0x1000 * 0x1000

namespace Render

def contexts (statement : Statement) : List Nat :=
  let pc := statement.codeNr
  match statement.line with
  | .assign _ => [pc, pc + 1]
  | .jump line =>
      if line.ifCondition then [pc + line.jt.codeNr + 1, pc + line.jf.codeNr + 1, pc]
      else [pc + line.jt.codeNr + 1, pc]
  | _ => []

def slots (statement : Statement) : List Nat :=
  match statement.line with
  | .assign line =>
      (if line.leftVar.type = .mem then [line.leftVar.data.toNat] else []) ++
        (if line.operator = .equal ∧ line.rightVar.type = .mem then [line.rightVar.data.toNat]
        else [])
  | _ => []

def within (listLen : Nat) (statement : Statement) : Bool :=
  (contexts statement).all (· < listLen) && (slots statement).all (· < bpfMemWords)

/-- `render_statement` where an index outside an array ends everything. -/
def statementWithin (lib : Libseccomp) (defaultArch : Word) (listLen : Nat)
    (statement : Statement) (state : RenderState) : Option (Statement × RenderState) :=
  if within listLen statement then renderStatement lib defaultArch statement state else none

def fromWithin (lib : Libseccomp) (defaultArch : Word) (listLen : Nat) :
    List Statement → RenderState → Option (List Statement)
  | [], _ => some []
  | statement :: rest, state =>
      match statementWithin lib defaultArch listLen statement state with
      | none => none
      | some (shown, state) => (fromWithin lib defaultArch listLen rest state).map (shown :: ·)

end Render

/-- `render` on its list of two contexts more than there are filters. -/
def renderWithin (lib : Libseccomp) (scmpArch : Word) (pile : Nat) (statements : List Statement) :
    Option (List Statement) :=
  Render.fromWithin lib scmpArch (statements.length + 2) statements
    { list := startList scmpArch, pile }

/-- `decode_filters` and `render` on a traced filter come to their end. -/
def TracedWithin (lib : Libseccomp) (scmpArch : Word) (prog : List Filter) : Prop :=
  ∃ statements shown,
    decodeFilters prog true = .ok (some (Statement.zero :: statements), false) ∧
      renderWithin lib scmpArch (pileSize prog.length) statements = some shown

/-- What the filter with index `i` of `n` has to keep to. -/
def Filter.InBounds (f : Filter) (i n : Nat) : Prop :=
  match (bpfClass f.code).toNat with
  | 0x00 | 0x01 =>
      match (bpfMode f.code).toNat with
      | 0x00 | 0x80 => True
      | 0x20 => f.k.toNat < seccompDataSize
      | 0x60 => f.k.toNat < bpfMemWords
      | _ => False
  | 0x02 | 0x03 => f.k.toNat < bpfMemWords
  | 0x04 => (bpfOp f.code).toNat ≤ 0xa0
  | 0x05 =>
      if bpfOp f.code = 0x00 then i + f.k.toNat % 2 ^ 16 < n
      else (bpfOp f.code).toNat ≤ 0x40 ∧ i + f.jt.toNat < n ∧ i + f.jf.toNat < n
  | _ => True

/-- No name of libseccomp is longer than `sched_rr_get_interval_time64`. -/
def Libseccomp.ShortNames (lib : Libseccomp) : Prop :=
  ∀ arch number name, lib.resolveNumArch arch number = some name → name.length ≤ 28

theorem arch_spelling_short (arch : Word) (text : Text)
    (known : scmpArchToInternalStr arch = some text) : text.length ≤ 11 := by
  obtain ⟨internal, found, rfl⟩ := Option.map_eq_some_iff.mp known
  have rows : ∀ row ∈ archTable, row.1.spelling.length ≤ 11 := by decide
  exact rows _ (internal_arch_row arch internal found)

theorem persist_object_room (sysname : Text) (arch : Option Text) (pile : Nat)
    (room : 40 ≤ pile) (name : sysname.length ≤ 28) (spelling : ∀ text ∈ arch, text.length ≤ 11) :
    ∃ text left, Render.persistObject sysname arch pile = some (text, left) ∧ pile ≤ left + 40 := by
  unfold Render.persistObject
  cases arch with
  | none =>
      dsimp only
      rw [if_pos (by omega)]
      exact ⟨_, _, rfl, by omega⟩
  | some arch =>
      have short := spelling arch rfl
      have length : (arch ++ '.' :: sysname).length = arch.length + (sysname.length + 1) := by simp
      dsimp only
      rw [if_pos (by omega)]
      exact ⟨_, _, rfl, by omega⟩

theorem resolve_operand_room (lib : Libseccomp) (short : lib.ShortNames) (defaultArch : Word)
    (ctx : StatCtx) (pile : Nat) (room : 40 ≤ pile) (line : JumpLine) :
    ∃ after left, Render.resolveOperand lib defaultArch ctx pile line = some (after, left) ∧
      pile ≤ left + 40 := by
  unfold Render.resolveOperand
  split
  · exact ⟨_, _, rfl, by omega⟩
  · split
    · exact ⟨_, _, rfl, by omega⟩
    · split
      · unfold Render.tryResolveSysnr
        split
        · exact ⟨_, _, rfl, by omega⟩
        · split
          · exact ⟨_, _, rfl, by omega⟩
          · next name resolved =>
              obtain ⟨text, left, persisted, enough⟩ := persist_object_room name
                (if ctx.arch ≠ defaultArch then scmpArchToInternalStr ctx.arch else none) pile room
                (short _ _ _ resolved) (by
                  intro text known
                  split at known
                  · exact arch_spelling_short ctx.arch text known
                  · cases known)
              dsimp only
              rw [persisted]
              exact ⟨_, _, rfl, enough⟩
      · exact ⟨_, _, rfl, by omega⟩

def Line.Decoded : Line → Prop
  | .assign line => line.leftVar.type = .A ∨ line.leftVar.type = .X ∨ line.leftVar.type = .mem
  | .jump _ | .return_ _ => True
  | _ => False

theorem statement_within_room (lib : Libseccomp) (short : lib.ShortNames) (defaultArch : Word)
    (listLen : Nat) (statement : Statement) (decoded : statement.line.Decoded)
    (inside : Render.within listLen statement) (state : RenderState) (room : 40 ≤ state.pile) :
    ∃ shown next, Render.statementWithin lib defaultArch listLen statement state =
        some (shown, next) ∧ state.pile ≤ next.pile + 40 := by
  unfold Render.statementWithin
  rw [if_pos inside]
  unfold renderStatement
  cases shape : statement.line with
  | assign line =>
      rw [shape] at decoded
      obtain ⟨ctx, assigned⟩ : ∃ ctx, Render.assignLine line (state.list statement.codeNr) = some ctx := by
        unfold Render.assignLine
        rcases decoded with type | type | type <;> rw [type] <;> exact ⟨_, rfl⟩
      dsimp only
      rw [assigned]
      exact ⟨_, _, rfl, by simp⟩
  | jump line =>
      obtain ⟨after, left, resolved, enough⟩ := resolve_operand_room lib short defaultArch
        (Render.trackJump line statement.codeNr state.list statement.codeNr) state.pile room line
      dsimp only
      rw [resolved]
      exact ⟨_, _, rfl, enough⟩
  | return_ line => exact ⟨_, _, rfl, by simp⟩
  | empty | eof | error line =>
      rw [shape] at decoded
      cases decoded

theorem from_within_iff (lib : Libseccomp) (short : lib.ShortNames) (defaultArch : Word)
    (listLen : Nat) (statements : List Statement)
    (decoded : ∀ statement ∈ statements, statement.line.Decoded) (state : RenderState)
    (room : 40 * statements.length ≤ state.pile) :
    (∃ shown, Render.fromWithin lib defaultArch listLen statements state = some shown) ↔
      ∀ statement ∈ statements, Render.within listLen statement := by
  induction statements generalizing state with
  | nil => simp [Render.fromWithin]
  | cons statement rest ih =>
      rw [List.forall_mem_cons] at decoded
      rw [List.length_cons] at room
      by_cases inside : Render.within listLen statement
      · obtain ⟨shown, next, handled, enough⟩ := statement_within_room lib short defaultArch listLen
          statement decoded.1 inside state (by omega)
        have later := ih decoded.2 next (by omega)
        simp only [List.forall_mem_cons, inside, true_and, ← later, Render.fromWithin, handled,
          Option.map_eq_some_iff]
        exact ⟨fun ⟨_, more, found, _⟩ => ⟨more, found⟩, fun ⟨more, found⟩ => ⟨_, more, found, rfl⟩⟩
      · simp [Render.fromWithin, Render.statementWithin, inside]

theorem render_within_same (lib : Libseccomp) (scmpArch : Word) (pile : Nat)
    (statements shown : List Statement)
    (rendered : renderWithin lib scmpArch pile statements = some shown) :
    render lib scmpArch pile statements = some shown := by
  have same (listLen : Nat) (rest after : List Statement) (state : RenderState)
      (handled : Render.fromWithin lib scmpArch listLen rest state = some after) :
      (renderFrom lib scmpArch rest state).map Prod.fst = some after := by
    induction rest generalizing state after with
    | nil =>
        rw [Render.fromWithin] at handled
        simpa [renderFrom] using handled
    | cons statement rest ih =>
        rw [Render.fromWithin, Render.statementWithin] at handled
        by_cases inside : Render.within listLen statement
        · rw [if_pos inside] at handled
          cases one : renderStatement lib scmpArch statement state with
          | none => simp [one] at handled
          | some pair =>
              obtain ⟨first, next⟩ := pair
              simp only [one, Option.map_eq_some_iff] at handled
              obtain ⟨more, later, rfl⟩ := handled
              obtain ⟨both, reached, rfl⟩ := Option.map_eq_some_iff.mp (ih more next later)
              simp [renderFrom, one, reached]
        · simp [inside] at handled
  exact same _ statements shown _ rendered

theorem abs_table_some (idx : Nat) : (absTable idx).isSome ↔ idx < 16 := by
  have rows : ∀ row < 16, (absTable row).isSome := by decide
  rcases Nat.lt_or_ge idx 16 with small | large
  · simp [rows idx small, small]
  · obtain ⟨more, rfl⟩ := Nat.exists_eq_add_of_le' large
    simp [show absTable (more + 16) = none from rfl]

theorem abs_table_type (idx : Nat) (type : TokenType) (row : absTable idx = some type) :
    type ≠ .mem := by
  unfold absTable at row
  split at row <;> cases row <;> decide

theorem operator_table_some (idx : Nat) : (operatorTable idx).isSome ↔ idx < 11 := by
  have rows : ∀ row < 11, (operatorTable row).isSome := by decide
  rcases Nat.lt_or_ge idx 11 with small | large
  · simp [rows idx small, small]
  · obtain ⟨more, rfl⟩ := Nat.exists_eq_add_of_le' large
    simp [show operatorTable (more + 11) = none from rfl]

theorem operator_table_type (idx : Nat) (type : TokenType) (row : operatorTable idx = some type) :
    type ≠ .equal := by
  unfold operatorTable at row
  split at row <;> cases row <;> decide

theorem comparator_table_some (idx : Nat) : (comparatorTable idx).isSome ↔ idx < 5 := by
  have rows : ∀ row < 5, (comparatorTable row).isSome := by decide
  rcases Nat.lt_or_ge idx 5 with small | large
  · simp [rows idx small, small]
  · obtain ⟨more, rfl⟩ := Nat.exists_eq_add_of_le' large
    simp [show comparatorTable (more + 5) = none from rfl]

theorem reverse_table_some (idx : Nat) : (reverseTable idx).isSome ↔ idx < 4 := by
  have rows : ∀ row < 4, (reverseTable row).isSome := by decide
  rcases Nat.lt_or_ge idx 4 with small | large
  · simp [rows idx small, small]
  · obtain ⟨more, rfl⟩ := Nat.exists_eq_add_of_le' large
    simp [show reverseTable (more + 4) = none from rfl]

/-- A load is decoded exactly if its mode is known and its word is one of the table. -/
theorem ld_right_within (f : Filter) :
    (∃ right, Decoder.ldRight f = some right ∧
        (right.type = .mem → right.data.toNat < bpfMemWords)) ↔
      match (bpfMode f.code).toNat with
      | 0x00 | 0x80 => True
      | 0x20 => f.k.toNat < seccompDataSize
      | 0x60 => f.k.toNat < bpfMemWords
      | _ => False := by
  unfold Decoder.ldRight
  generalize (bpfMode f.code).toNat = mode
  split
  · simp [Obj.number]
  · simp [Obj.at]
  · have row := abs_table_some (f.k.toNat / 4)
    simp only [seccompDataSize]
    constructor
    · rintro ⟨right, found, _⟩
      obtain ⟨type, here, _⟩ := Option.map_eq_some_iff.mp found
      rw [here] at row
      have := row.mp rfl
      omega
    · intro inside
      obtain ⟨type, here⟩ := Option.isSome_iff_exists.mp (row.mpr (by omega))
      refine ⟨_, Option.map_eq_some_iff.mpr ⟨type, here, rfl⟩, fun same => ?_⟩
      refine absurd ?_ (abs_table_type _ _ here)
      by_cases arg : type = .attrLowarg ∨ type = .attrHigharg
      · simpa [arg, Obj.at] using same
      · simpa [arg, Obj.of] using same
  · simp [Obj.of]
  · simp

theorem bpf_op_nibble (code : BitVec 16) :
    (bpfOp code).toNat = 16 * rsh4 (bpfOp code) ∧ (bpfOp code).toNat ≤ 0xf0 := by
  have low : (bpfOp code).toNat % 2 ^ 4 = 0 := by
    rw [← Nat.and_two_pow_sub_one_eq_mod, bpfOp, BitVec.toNat_and, Nat.and_assoc]
    exact Nat.and_zero _
  constructor
  · unfold rsh4
    omega
  · rw [bpfOp, BitVec.toNat_and]
    exact Nat.and_le_right

theorem condition_some (f : Filter) (ifBang : Bool) :
    (Decoder.condition f ifBang).isSome ↔ (bpfOp f.code).toNat ≤ 0x40 := by
  unfold Decoder.condition
  extract_lets op operand
  obtain ⟨nibble, _⟩ : op.toNat = 16 * rsh4 op ∧ op.toNat ≤ 0xf0 := bpf_op_nibble f.code
  change _ ↔ op.toNat ≤ 0x40
  split
  · rw [Option.isSome_map, comparator_table_some]
    omega
  · next swapped =>
      have other : op.toNat ≠ 0x40 := by
        intro same
        have jset : op = 0x40#16 := BitVec.eq_of_toNat_eq same
        exact swapped (by simp [jset])
      rw [Option.isSome_map, reverse_table_some]
      omega

theorem guarded_index (used : Prop) [Decidable used] (idx bound : Nat) :
    (if used then [idx] else []).all (· < bound) ↔ (used → idx < bound) := by
  by_cases taken : used
  · simp [taken]
  · simp [taken]

theorem assign_within (listLen : Nat) (statement : Statement) (line : AssignLine)
    (assigns : statement.line = .assign line) :
    Render.within listLen statement ↔ statement.codeNr + 1 < listLen ∧
      (line.leftVar.type = .mem → line.leftVar.data.toNat < bpfMemWords) ∧
      (line.operator = .equal ∧ line.rightVar.type = .mem →
        line.rightVar.data.toNat < bpfMemWords) := by
  unfold Render.within Render.contexts Render.slots
  rw [assigns]
  simp only [Bool.and_eq_true, List.all_append, guarded_index, List.all_cons, List.all_nil,
    decide_eq_true_eq, and_true]
  constructor
  · rintro ⟨⟨_, next⟩, slots⟩
    exact ⟨next, slots⟩
  · rintro ⟨next, slots⟩
    exact ⟨⟨by omega, next⟩, slots⟩

theorem jump_within (listLen : Nat) (statement : Statement) (line : JumpLine)
    (jumps : statement.line = .jump line) :
    Render.within listLen statement ↔ statement.codeNr + line.jt.codeNr + 1 < listLen ∧
      (line.ifCondition = true → statement.codeNr + line.jf.codeNr + 1 < listLen) := by
  unfold Render.within Render.contexts Render.slots
  rw [jumps]
  by_cases conditional : line.ifCondition = true
  · simp [conditional]
    omega
  · simp [conditional]
    omega

section Decoding

variable (f : Filter) (i n : Nat) (inside : i < n) (start : Statement) (own : start.codeNr = i + 1)

include inside own

theorem load_within :
    (∃ statement, Decoder.ldLdxLine f start = some statement ∧
        Render.within (n + 2) statement) ↔
      ∃ right, Decoder.ldRight f = some right ∧
        (right.type = .mem → right.data.toNat < bpfMemWords) := by
  have decided (right : Obj) (statement : Statement)
      (assigns : statement.line = .assign
        { leftVar := .of (if bpfClass f.code = 0x00 then .A else .X), operator := .equal,
          rightVar := right })
      (there : statement.codeNr = i + 1) :
      Render.within (n + 2) statement ↔
        (right.type = .mem → right.data.toNat < bpfMemWords) := by
    have register : (Obj.of (if bpfClass f.code = 0x00 then .A else .X)).type ≠ .mem := by
      split <;> simp [Obj.of]
    rw [assign_within _ _ _ assigns, there]
    constructor
    · rintro ⟨_, _, slot⟩ type
      exact slot ⟨rfl, type⟩
    · intro slot
      exact ⟨by omega, fun type => absurd type register, fun type => slot type.2⟩
  unfold Decoder.ldLdxLine
  constructor
  · rintro ⟨statement, decoded, bounded⟩
    obtain ⟨right, found, rfl⟩ := Option.map_eq_some_iff.mp decoded
    refine ⟨right, found, (decided right _ ?_ ?_).mp bounded⟩
    · dsimp only
      split <;> rfl
    · dsimp only
      split <;> exact own
  · rintro ⟨right, found, slot⟩
    refine ⟨_, Option.map_eq_some_iff.mpr ⟨right, found, rfl⟩, (decided right _ ?_ ?_).mpr slot⟩
    · dsimp only
      split <;> rfl
    · dsimp only
      split <;> exact own

theorem store_within :
    Render.within (n + 2) { start with line := Decoder.stStxLine f } ↔ f.k.toNat < bpfMemWords := by
  have register : (Obj.of (if bpfClass f.code = 0x02 then .A else .X)).type ≠ .mem := by
    split <;> simp [Obj.of]
  rw [assign_within _ _ _ rfl]
  constructor
  · rintro ⟨_, slot, _⟩
    exact slot rfl
  · intro slot
    exact ⟨by dsimp only; omega, fun _ => slot, fun type => absurd type.2 register⟩

theorem alu_within :
    (∃ statement, (Decoder.aluLine f).map (fun line => { start with line }) = some statement ∧
        Render.within (n + 2) statement) ↔
      (bpfOp f.code).toNat ≤ 0xa0 := by
  obtain ⟨nibble, _⟩ := bpf_op_nibble f.code
  have row := operator_table_some (rsh4 (bpfOp f.code))
  have bound : (bpfOp f.code).toNat ≤ 0xa0 ↔ rsh4 (bpfOp f.code) < 11 := by omega
  rw [bound, ← row]
  unfold Decoder.aluLine
  cases found : operatorTable (rsh4 (bpfOp f.code)) with
  | none => simp
  | some operator =>
      have other := operator_table_type _ _ found
      simp only [Option.map_some, Option.some.injEq, exists_eq_left', Option.isSome_some, iff_true]
      rw [assign_within _ _ _ rfl]
      refine ⟨by dsimp only; omega, ?_, ?_⟩
      · intro type
        cases type
      · intro type
        exact absurd type.1 other

omit inside in
theorem jump_line_within :
    (∃ statement, (Decoder.jumpLine f).map (fun line => { start with line }) = some statement ∧
        Render.within (n + 2) statement) ↔
      if bpfOp f.code = 0x00 then i + f.k.toNat % 2 ^ 16 < n
      else (bpfOp f.code).toNat ≤ 0x40 ∧ i + f.jt.toNat < n ∧ i + f.jf.toNat < n := by
  unfold Decoder.jumpLine
  dsimp only
  split
  · simp only [Option.map_some, Option.some.injEq, exists_eq_left']
    rw [jump_within _ _ _ rfl]
    dsimp only
    rw [own]
    constructor
    · rintro ⟨jt, _⟩
      omega
    · intro jt
      exact ⟨by omega, fun never => by cases never⟩
  · have decided := condition_some f (decide (f.jt = 0 ∧ f.jf ≠ 0))
    rw [← decided]
    cases found : Decoder.condition f (decide (f.jt = 0 ∧ f.jf ≠ 0)) with
    | none => simp
    | some condition =>
        simp only [Option.map_some, Option.some.injEq, exists_eq_left', Option.isSome_some, true_and]
        rw [jump_within _ _ _ rfl]
        dsimp only
        rw [own]
        split
        · constructor
          · rintro ⟨jt, jf⟩
            have := jf rfl
            omega
          · rintro ⟨jt, jf⟩
            exact ⟨by omega, fun _ => by omega⟩
        · constructor
          · rintro ⟨jt, jf⟩
            have := jf rfl
            omega
          · rintro ⟨jt, jf⟩
            exact ⟨by omega, fun _ => by omega⟩

/-- Which filters `decode_filter` turns into statements that keep `render` in bounds. -/
theorem decode_filter_within :
    (∃ statement, decodeFilter f start = some statement ∧ Render.within (n + 2) statement) ↔
      f.InBounds i n := by
  unfold decodeFilter Filter.InBounds
  generalize (bpfClass f.code).toNat = family
  split
  · exact (load_within f i n inside start own).trans (ld_right_within f)
  · exact (load_within f i n inside start own).trans (ld_right_within f)
  · simpa using store_within f i n inside start own
  · simpa using store_within f i n inside start own
  · exact alu_within f i n inside start own
  · exact jump_line_within f i n start own
  · simp [Render.within, Render.contexts, Render.slots, Decoder.returnLine]
  · have misc : Render.within (n + 2) { start with line := Decoder.miscLine f } := by
      unfold Decoder.miscLine
      split
      · rw [assign_within _ _ _ rfl]
        exact ⟨by dsimp only; omega, (fun type => by cases type), fun type => by cases type.2⟩
      · rw [assign_within _ _ _ rfl]
        exact ⟨by dsimp only; omega, (fun type => by cases type), fun type => by cases type.2⟩
    simp only [Option.some.injEq, exists_eq_left', misc]

end Decoding

theorem decode_filter_shape (f : Filter) (start statement : Statement)
    (decoded : decodeFilter f start = some statement) : statement.line.Decoded := by
  have register (first : Prop) [Decidable first] (left : Obj)
      (same : left = .of (if first then .A else .X)) :
      left.type = .A ∨ left.type = .X ∨ left.type = .mem := by
    rw [same]
    by_cases holds : first
    · exact Or.inl (by rw [if_pos holds]; rfl)
    · exact Or.inr (Or.inl (by rw [if_neg holds]; rfl))
  have load (loaded : Decoder.ldLdxLine f start = some statement) : statement.line.Decoded := by
    obtain ⟨right, _, rfl⟩ := Option.map_eq_some_iff.mp loaded
    dsimp only
    split <;> exact register (bpfClass f.code = 0x00) _ rfl
  unfold decodeFilter at decoded
  split at decoded
  · exact load decoded
  · exact load decoded
  · cases decoded
    exact Or.inr (Or.inr rfl)
  · cases decoded
    exact Or.inr (Or.inr rfl)
  · obtain ⟨line, computed, rfl⟩ := Option.map_eq_some_iff.mp decoded
    obtain ⟨operator, _, rfl⟩ := Option.map_eq_some_iff.mp computed
    exact Or.inl rfl
  · obtain ⟨line, jumps, rfl⟩ := Option.map_eq_some_iff.mp decoded
    unfold Decoder.jumpLine at jumps
    dsimp only at jumps
    split at jumps
    · cases jumps
      trivial
    · obtain ⟨condition, _, rfl⟩ := Option.map_eq_some_iff.mp jumps
      trivial
  · cases decoded
    trivial
  · cases decoded
    unfold Decoder.miscLine
    dsimp only
    split
    · exact Or.inr (Or.inl rfl)
    · exact Or.inl rfl

theorem decode_from_shape (rest : List Filter) (i : Nat) (statements : List Statement)
    (decoded : decodeFrom i rest = some statements) :
    statements.length = rest.length ∧ ∀ statement ∈ statements, statement.line.Decoded := by
  induction rest generalizing i statements with
  | nil =>
      cases decoded
      simp
  | cons f rest ih =>
      rw [decodeFrom] at decoded
      split at decoded
      · next statement later one more =>
          cases decoded
          obtain ⟨length, shapes⟩ := ih (i + 1) later more
          refine ⟨by rw [List.length_cons, length, List.length_cons], ?_⟩
          rw [List.forall_mem_cons]
          exact ⟨decode_filter_shape f _ statement one, shapes⟩
      · cases decoded

theorem decode_from_within (n : Nat) (few : n ≤ bpfMaxInsns) (rest : List Filter) (i : Nat)
    (last : i + rest.length = n) :
    (∃ statements, decodeFrom i rest = some statements ∧
        ∀ statement ∈ statements, Render.within (n + 2) statement) ↔
      ∀ (j : Nat) (f : Filter), rest[j]? = some f → f.InBounds (i + j) n := by
  induction rest generalizing i with
  | nil => simp [decodeFrom]
  | cons f rest ih =>
      rw [List.length_cons] at last
      have later := ih (i + 1) (by omega)
      -- `code_nr` has 16 bits, which the bound on the length keeps from wrapping
      have number : (i + 1) % 2 ^ 16 = i + 1 := by
        simp only [bpfMaxInsns] at few
        omega
      have here := decode_filter_within f i n (by omega)
        { Statement.zero with textNr := (i + 1) % 2 ^ 16, codeNr := (i + 1) % 2 ^ 16 } number
      constructor
      · rintro ⟨statements, decoded, bounded⟩ j other found
        rw [decodeFrom] at decoded
        split at decoded
        · next statement more one rest_ =>
            cases decoded
            rw [List.forall_mem_cons] at bounded
            cases j with
            | zero =>
                cases found
                exact here.mp ⟨statement, one, bounded.1⟩
            | succ j =>
                have there := later.mp ⟨more, rest_, bounded.2⟩ j other (by simpa using found)
                rwa [Nat.add_right_comm, Nat.add_assoc] at there
        · cases decoded
      · intro each
        obtain ⟨statement, one, bounded⟩ := here.mpr (each 0 f rfl)
        obtain ⟨more, rest_, laterBounded⟩ := later.mpr fun j other found => by
          have there := each (j + 1) other (by simpa using found)
          rwa [← Nat.add_assoc, Nat.add_right_comm] at there
        refine ⟨statement :: more, by rw [decodeFrom, one, rest_], ?_⟩
        rw [List.forall_mem_cons]
        exact ⟨bounded, laterBounded⟩

/-- Decoding and rendering a traced filter stays within all tables and arrays exactly if
every copied filter keeps to its bounds. -/
theorem traced_within_iff (lib : Libseccomp) (short : lib.ShortNames) (scmpArch : Word)
    (prog : List Filter) (few : prog.length ≤ bpfMaxInsns) :
    TracedWithin lib scmpArch prog ↔
      ∀ (i : Nat) (f : Filter), prog[i]? = some f → f.InBounds i prog.length := by
  have each := decode_from_within prog.length few prog 0 (by omega)
  simp only [Nat.zero_add] at each
  rw [← each]
  have room (statements : List Statement) (length : statements.length = prog.length) :
      40 * statements.length ≤ pileSize prog.length := by
    unfold pileSize
    omega
  have decoding (statements : List Statement) :
      decodeFilters prog true = .ok (some (Statement.zero :: statements), false) ↔
        decodeFrom 0 prog = some statements := by
    simp [decodeFilters]
  constructor
  · rintro ⟨statements, shown, decoded, rendered⟩
    rw [decoding] at decoded
    obtain ⟨length, shapes⟩ := decode_from_shape prog 0 statements decoded
    rw [renderWithin, length] at rendered
    exact ⟨statements, decoded, (from_within_iff lib short scmpArch _ statements shapes _
      (room statements length)).mp ⟨shown, rendered⟩⟩
  · rintro ⟨statements, decoded, bounded⟩
    obtain ⟨length, shapes⟩ := decode_from_shape prog 0 statements decoded
    obtain ⟨shown, rendered⟩ := (from_within_iff lib short scmpArch (prog.length + 2) statements
      shapes { list := startList scmpArch, pile := pileSize prog.length }
      (room statements length)).mpr bounded
    exact ⟨statements, shown, (decoding statements).mpr decoded, by rw [renderWithin, length, rendered]⟩

/-- `$A = $arch; return ALLOW` -/
theorem traced_within_two :
    TracedWithin { resolveNumArch := fun _ _ => none, resolveNameArch := fun _ _ => 0xFFFFFFFF }
      0xC000003E [⟨0x20, 0, 0, 4⟩, ⟨0x06, 0, 0, 0x7fff0000⟩] := by
  refine (traced_within_iff _ ?_ 0xC000003E _ (by decide)).mpr ?_
  · intro arch number name resolved
    cases resolved
  · intro i f found
    match i with
    | 0 =>
        cases found
        simp [Filter.InBounds, bpfClass, bpfMode, seccompDataSize]
    | 1 =>
        cases found
        simp [Filter.InBounds, bpfClass]
    | i + 2 => cases found

/-- A store to slot 0x1000 is written behind `mem_stat`. -/
theorem traced_store_outside :
    ¬ ∀ (lib : Libseccomp), lib.ShortNames → ∀ (scmpArch : Word) (prog : List Filter),
      0 < prog.length → prog.length ≤ bpfMaxInsns → TracedWithin lib scmpArch prog := by
  intro claim
  obtain ⟨statements, shown, decoded, rendered⟩ :=
    claim { resolveNumArch := fun _ _ => none, resolveNameArch := fun _ _ => 0xFFFFFFFF }
      (fun _ _ _ resolved => by cases resolved) 0xC000003E
      [⟨0x02, 0, 0, 0x1000⟩, ⟨0x06, 0, 0, 0x7fff0000⟩] (by decide) (by decide)
  cases decoded
  cases rendered

end Ceccomp
