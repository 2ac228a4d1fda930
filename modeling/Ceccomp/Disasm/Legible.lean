import Ceccomp.Disasm.PrintProg
import Ceccomp.Text.Named

/-!
What `print_prog` shows of an accepted program can be read: each line has a text the
parser takes apart again, the names that `render` put into it included.
-/

namespace Ceccomp

def bareActions : List Word := [0x80000000, 0x00000000, 0x7fff0000, 0x7ffc0000, 0x7fc00000]

/-- The value that the text of a `return` stands for. -/
def shownReturn (k : Word) : Word :=
  if k &&& seccompRetActionFull ∈ bareActions then k &&& seccompRetActionFull else k

theorem default_label_plain (nr : Nat) : PlainName (defaultLabel nr) := by
  have digits : ∀ c ∈ (decText nr).leftpad 4 '0', c.isDigit = true := by
    intro c member
    rcases List.mem_append.mp member with zero | digit
    · rw [List.eq_of_mem_replicate zero]
      rfl
    · exact Nat.isDigit_of_mem_toDigits (by decide) (by decide) digit
  obtain ⟨first, later, same⟩ : ∃ first later, (decText nr).leftpad 4 '0' = first :: later :=
    List.exists_cons_of_ne_nil fun none => by
      have length := congrArg List.length none
      rw [List.length_leftpad, List.length_nil] at length
      omega
  constructor
  · rfl
  · intro c member
    rcases List.mem_cons.mp member with rfl | digit
    · rfl
    · simp [isIdentifier, Char.isAlphanum, digits c digit]
  · -- the one word with that letter goes on with another letter
    have words : ∀ type ∈ reservedTokens, type.spelling.head? = some 'L' →
        (peekAt type.spelling 1).isDigit = false := by
      decide
    intro type member spelled
    have second := words type member (by rw [spelled]; rfl)
    rw [spelled, defaultLabel, same] at second
    have digit := digits first (by rw [same]; exact List.mem_cons_self)
    exact Bool.false_ne_true (second.symm.trans digit)

theorem default_label_inj (nr other : Nat) (same : defaultLabel nr = defaultLabel other) :
    nr = other := by
  -- leading zeros do not change the value
  have value (n : Nat) : digitsValue 10 ((decText n).leftpad 4 '0') = n := by
    have zeros (count : Nat) (digits : Text) :
        digitsValue 10 (List.replicate count '0' ++ digits) = digitsValue 10 digits := by
      induction count with
      | zero => rfl
      | succ count ih => exact ih
    rw [List.leftpad, zeros]
    exact to_digits_value 10 (by decide) (by decide) n
  have tails : (decText nr).leftpad 4 '0' = (decText other).leftpad 4 '0' := (List.cons.inj same).2
  rw [← value nr, tails, value]

theorem print_label_to (pc distance : Nat) :
    Formatter.printLabel (.to distance) pc = defaultLabel (pc + distance + 1) := rfl

/-- What `decode_return_k` shows of a returned value. -/
inductive ReturnShown (k : Word) : TokenType → Word → Prop where
  | number (whole : shownReturn k = k) : ReturnShown k .number k
  | carrying (type : TokenType) (known : type ∈ [.trace, .trap, .errno])
      (value : ∃ action, Asm.retvals type = some action ∧ action ||| (k &&& seccompRetData) = k)
      (whole : shownReturn k = k) : ReturnShown k type (k &&& seccompRetData)
  | bare (type : TokenType) (known : type ∈ [.killProc, .kill, .allow, .log, .notify])
      (value : Asm.retvals type = some (shownReturn k)) : ReturnShown k type 0

theorem decode_return_cases (k : Word) :
    ∃ type data, (decodeReturnK (.of .archX86) k).1 = { type, data, literal := none } ∧
      ReturnShown k type data := by
  have halves : (k &&& seccompRetActionFull) ||| (k &&& seccompRetData) = k := by
    rw [← BitVec.and_or_distrib_left]
    exact BitVec.and_allOnes
  have bare (type : TokenType) (known : type ∈ [.killProc, .kill, .allow, .log, .notify])
      (value : Word) (listed : value ∈ bareActions) (action : Asm.retvals type = some value)
      (same : k &&& seccompRetActionFull = value) :
      ∃ shown data, ({ Obj.of .archX86 with type } : Obj) =
        { type := shown, data, literal := none } ∧ ReturnShown k shown data := by
    have whole : shownReturn k = value := by
      unfold shownReturn
      rw [same, if_pos listed]
    exact ⟨type, 0, rfl, .bare type known (by rw [whole]; exact action)⟩
  have carrying (type : TokenType) (known : type ∈ [.trace, .trap, .errno])
      (value : Word) (free : value ∉ bareActions) (action : Asm.retvals type = some value)
      (same : k &&& seccompRetActionFull = value) :
      ∃ shown data, ({ Obj.of .archX86 with type, data := k &&& seccompRetData } : Obj) =
        { type := shown, data, literal := none } ∧ ReturnShown k shown data := by
    have whole : shownReturn k = k := by
      unfold shownReturn
      rw [same, if_neg free]
    exact ⟨type, _, rfl, .carrying type known ⟨value, action, by rw [← same]; exact halves⟩ whole⟩
  have word (value : Word) (same : (k &&& seccompRetActionFull).toNat = value.toNat) :
      k &&& seccompRetActionFull = value := BitVec.eq_of_toNat_eq same
  unfold decodeReturnK
  split
  · next same => exact bare .killProc (by decide) 0x80000000 (by decide) rfl (word _ same)
  · next same => exact bare .kill (by decide) 0x00000000 (by decide) rfl (word _ same)
  · next same => exact bare .allow (by decide) 0x7fff0000 (by decide) rfl (word _ same)
  · next same => exact bare .log (by decide) 0x7ffc0000 (by decide) rfl (word _ same)
  · next same => exact bare .notify (by decide) 0x7fc00000 (by decide) rfl (word _ same)
  · next same => exact carrying .trace (by decide) 0x7ff00000 (by decide) rfl (word _ same)
  · next same => exact carrying .trap (by decide) 0x00030000 (by decide) rfl (word _ same)
  · next same => exact carrying .errno (by decide) 0x00050000 (by decide) rfl (word _ same)
  · next killProc kill allow log notify _ _ _ =>
      refine ⟨.number, k, rfl, .number ?_⟩
      unfold shownReturn
      rw [if_neg]
      intro listed
      simp only [bareActions, List.mem_cons, List.not_mem_nil, or_false] at listed
      rcases listed with same | same | same | same | same
      · exact killProc (by rw [same]; rfl)
      · exact kill (by rw [same]; rfl)
      · exact allow (by rw [same]; rfl)
      · exact log (by rw [same]; rfl)
      · exact notify (by rw [same]; rfl)

section Lines

variable (lib : Libseccomp) (localArch : Word)

theorem number_obj_legible (value : Word) : (Obj.number value).Legible :=
  { number := fun _ => hex_word value
    plain := fun other => absurd List.mem_cons_self other }

theorem word_obj_legible (type : TokenType) (word : type ≠ .number) : (Obj.of type).Legible :=
  { number := fun number => absurd number word
    plain := fun _ => rfl }

theorem indexed_obj_legible (type : TokenType) (data : Word) (known : type ∈ indexed) :
    Obj.Legible { type, data, literal := none } := by
  have each : ∀ type ∈ indexed, type ≠ .number ∧ type ∈ .number :: indexed := by decide
  exact
    { number := fun number => absurd number (each type known).1
      plain := fun other => absurd (each type known).2 other }

theorem attr_obj_legible (k : Word) :
    (attrObj k).Legible ∧ (attrObj k).type ∈ rightTypes ∧
      ((attrObj k).type = .attrLen → (attrObj k).data = 0) := by
  have rows : ∀ idx < 16, ∀ type ∈ absTable idx, type ≠ .number ∧ type ∈ rightTypes := by decide
  unfold attrObj
  cases found : absTable (k.toNat / 4) with
  | none =>
      exact ⟨word_obj_legible .attrLen (by decide), show TokenType.attrLen ∈ rightTypes by decide,
        fun _ => rfl⟩
  | some type =>
      have inside : k.toNat / 4 < 16 := by
        by_contra outside
        have none : absTable (k.toNat / 4) = none := by
          unfold absTable
          split <;> first | omega | rfl
        rw [none] at found
        cases found
      obtain ⟨word, right⟩ := rows _ inside type found
      dsimp only
      split
      · next arg =>
          refine ⟨indexed_obj_legible type _ ?_, right, ?_⟩
          · rcases arg with rfl | rfl <;> decide
          · intro length
            rcases arg with rfl | rfl <;> cases length
      · exact ⟨word_obj_legible type word, right, fun _ => rfl⟩

theorem assign_legible (pc : Nat) (left right : Obj) (operator : TokenType)
    (target : left.type ∈ [.A, .X, .mem]) (known : operator ∈ .equal :: .negative :: aluOperators)
    (source : right.type ∈ rightTypes) (length : right.type = .attrLen → right.data = 0)
    (left_ : left.Legible) (right_ : right.Legible) :
    (AssignLine.mk' left operator right).Legible lib localArch pc :=
  ⟨{ left := target, operator := known, right := source, length }, left_, right_⟩

/-- The text of a jump's operand can be read as what the jump compares with. -/
def Obj.Readable (obj : Obj) : Prop :=
  ∃ text, Formatter.objPrinter obj = some text ∧ Parser.OperandReads lib localArch text obj

theorem jump_legible (pc : Nat) (op : JmpOp) (src : Src) (jt jf : BitVec 8) (obj : Obj)
    (readable : obj.Readable lib localArch) :
    Line.Legible lib localArch pc (.jump { jmpShown op src jt jf with cmpobj := obj }) := by
  constructor
  · exact default_label_plain _
  · intro _
    exact default_label_plain _
  · intro _
    unfold jmpShown
    cases op <;> dsimp only <;> split <;> decide
  · intro _
    exact readable

theorem src_readable (src : Src) : src.obj.Readable lib localArch := by
  cases src with
  | k value => exact ⟨_, rfl, Parser.number_reads lib localArch _ value (hex_word value) none⟩
  | x => exact ⟨_, rfl, Parser.register_reads lib localArch none⟩

theorem return_legible (pc : Nat) (k : Word) : (Insn.retK k).line.Legible lib localArch pc := by
  show (decodeReturnK (.of .archX86) k).1.type ∈ Parser.returnTypes ∧
    (decodeReturnK (.of .archX86) k).1.Legible
  obtain ⟨type, data, same, kind⟩ := decode_return_cases k
  rw [same]
  have actions_ : ∀ type ∈ [TokenType.trace, .trap, .errno], type ∈ Parser.returnTypes ∧
      type ∈ indexed := by
    decide
  have words : ∀ type ∈ [TokenType.killProc, .kill, .allow, .log, .notify],
      type ∈ Parser.returnTypes ∧ type ≠ .number := by
    decide
  cases kind with
  | number =>
      exact ⟨show TokenType.number ∈ Parser.returnTypes by decide, number_obj_legible k⟩
  | carrying _ known _ =>
      exact ⟨(actions_ type known).1, indexed_obj_legible type _ (actions_ type known).2⟩
  | bare _ known _ => exact ⟨(words type known).1, word_obj_legible type (words type known).2⟩

theorem insn_legible (insn : Insn) (pc : Nat) : insn.line.Legible lib localArch pc := by
  have register (dst : Reg) : (Obj.of dst.type).type ∈ [.A, .X, .mem] ∧
      (Obj.of dst.type).type ∈ rightTypes ∧ (Obj.of dst.type).Legible := by
    cases dst
    · exact ⟨by decide, by decide, word_obj_legible .A (by decide)⟩
    · exact ⟨by decide, by decide, word_obj_legible .X (by decide)⟩
  have slot (k : Word) : (Obj.at .mem k).Legible := indexed_obj_legible .mem k (by decide)
  have plain (dst : Reg) (length : (Obj.of dst.type).type = .attrLen) :
      (Obj.of dst.type).data = 0 := rfl
  cases insn with
  | ldAbs k =>
      obtain ⟨legible, right, length⟩ := attr_obj_legible k
      exact assign_legible lib localArch pc _ _ _ (by decide) (by decide) right length
        (register .A).2.2 legible
  | ldLen dst =>
      exact assign_legible lib localArch pc _ _ _ (register dst).1 (by decide) (by decide)
        (fun _ => rfl) (register dst).2.2 (word_obj_legible .attrLen (by decide))
  | ldImm dst k =>
      exact assign_legible lib localArch pc _ _ _ (register dst).1 (by decide)
        (show TokenType.number ∈ rightTypes by decide) (fun none => by cases none)
        (register dst).2.2 (number_obj_legible k)
  | ldMem dst k =>
      exact assign_legible lib localArch pc _ _ _ (register dst).1 (by decide)
        (show TokenType.mem ∈ rightTypes by decide) (fun none => by cases none)
        (register dst).2.2 (slot k)
  | st src k =>
      exact assign_legible lib localArch pc _ _ _
        (show TokenType.mem ∈ [.A, .X, .mem] by decide) (by decide) (register src).2.1
        (fun _ => rfl) (slot k) (register src).2.2
  | alu op src =>
      have known : op.type ∈ .equal :: .negative :: aluOperators := by cases op <;> decide
      cases src with
      | k value =>
          exact assign_legible lib localArch pc _ _ _ (by decide) known
            (show TokenType.number ∈ rightTypes by decide) (fun none => by cases none)
            (register .A).2.2 (number_obj_legible value)
      | x =>
          exact assign_legible lib localArch pc _ _ _ (by decide) known (register .X).2.1
            (fun _ => rfl) (register .A).2.2 (register .X).2.2
  | neg =>
      exact assign_legible lib localArch pc _ _ _ (by decide) (by decide) (register .A).2.1
        (fun _ => rfl) (register .A).2.2 (register .A).2.2
  | tax =>
      exact assign_legible lib localArch pc _ _ _ (by decide) (by decide) (register .A).2.1
        (fun _ => rfl) (register .X).2.2 (register .A).2.2
  | txa =>
      exact assign_legible lib localArch pc _ _ _ (by decide) (by decide) (register .X).2.1
        (fun _ => rfl) (register .A).2.2 (register .X).2.2
  | ja k =>
      constructor
      · exact default_label_plain _
      · intro far
        exact absurd rfl far
      · intro conditional
        cases conditional
      · intro conditional
        cases conditional
  | jmp op src jt jf => exact jump_legible lib localArch pc op src jt jf src.obj (src_readable ..)
  | retA => exact ⟨by decide, word_obj_legible .A (by decide)⟩
  | retK k => exact return_legible lib localArch pc k

end Lines

def Obj.numeral (obj : Obj) : Obj :=
  if obj.type = .identifier then { obj with type := .number } else obj

theorem numeral_text (obj : Obj) (spelled : obj.type = .identifier → obj.literal.isSome) :
    Formatter.objPrinter obj.numeral = Formatter.objPrinter obj := by
  obtain ⟨type, data, literal⟩ := obj
  unfold Obj.numeral
  split
  · next identifier =>
      obtain ⟨name, rfl⟩ := Option.isSome_iff_exists.mp (spelled identifier)
      cases identifier
      rfl
  · rfl

/-- `name`, shown for system call `n`, is a word that libseccomp turns into `n` again, or in
the default architecture the name of an architecture with just that number. -/
def NameReads (lib : Libseccomp) (defaultArch arch n : Word) (name : Text) : Prop :=
  PlainName name ∧ n ≠ 0xFFFFFFFF ∧ lib.resolveNameArch arch name = n ∨
    arch = defaultArch ∧ ∃ type ∈ archTokens, type.spelling = name ∧ internalArchToScmpArch type = n

/-- Where `render` names the operand, it is a number, and the name is read as that number. -/
def Src.Kept (lib : Libseccomp) (defaultArch : Word) (ctx : StatCtx) (src : Src) : Prop :=
  ctx.aStat = .sysnr → ctx.arch ≠ archNone →
    ∀ name, lib.resolveNumArch ctx.arch src.obj.data = some name →
      src ≠ .x ∧ NameReads lib defaultArch ctx.arch src.obj.data name

/-- What `render` leaves of an operand: it is printed as before it was made a number
again, and is read as the old one. -/
structure OperandShown (lib : Libseccomp) (defaultArch : Word) (before after : Obj) : Prop where
  text : Formatter.objPrinter after.numeral = Formatter.objPrinter after
  readable : after.numeral.Readable lib defaultArch
  same : before.Same after.numeral
  tame : ∀ literal, after.numeral.literal = some literal → Tame 40 literal

section Operands

variable (lib : Libseccomp) (defaultArch : Word)

theorem untouched_shown (src : Src) : OperandShown lib defaultArch src.obj src.obj := by
  have plain : src.obj.numeral = src.obj := by
    cases src <;> rfl
  constructor
  · rw [plain]
  · rw [plain]
    exact src_readable lib defaultArch src
  · rw [plain]
    exact ⟨rfl, rfl⟩
  · rw [plain]
    intro literal kept
    cases src <;> cases kept

theorem named_shown (value : Word) (name : Text)
    (reads : Parser.OperandReads lib defaultArch name
      { type := .number, data := value, literal := some name }) (tame : Tame 40 name) :
    OperandShown lib defaultArch (.number value)
      { type := .identifier, data := value, literal := some name } :=
  { text := numeral_text _ fun _ => rfl
    readable := ⟨name, rfl, reads⟩
    same := ⟨rfl, rfl⟩
    tame := fun literal kept => by
      cases kept
      exact tame }

theorem arch_shown (src : Src) :
    OperandShown lib defaultArch src.obj (Render.tryResolveArch src.obj) := by
  cases src with
  | x => exact resolve_arch_x ▸ untouched_shown lib defaultArch .x
  | k value =>
      unfold Render.tryResolveArch scmpArchToInternalStr
      cases known : scmpArchToInternalArch value with
      | none => simpa [Src.obj, Obj.number, known] using untouched_shown lib defaultArch (.k value)
      | some internal =>
          have member : internal ∈ archTokens :=
            List.mem_map.mpr ⟨(internal, value),
              List.mem_append_left _ (internal_arch_row value internal known), rfl⟩
          have reads := Parser.arch_reads lib defaultArch internal member (some internal.spelling)
          rw [scmp_arch_round_trip value internal known] at reads
          have tame : Tame 40 internal.spelling :=
            tame_mono _ _ _ (spelling_tame internal) (by decide)
          simpa [Src.obj, Obj.number, known] using named_shown lib defaultArch value _ reads tame

theorem kept_name_reads (arch value : Word) (internal : TokenType)
    (known : scmpArchToInternalArch arch = some internal) (name : Text)
    (kept : NameReads lib defaultArch arch value name) (literal : Option Text) :
    Parser.OperandReads lib defaultArch
      (if arch = defaultArch then name else internal.spelling ++ '.' :: name)
      { type := .number, data := value, literal } := by
  rcases kept with ⟨plain, valid, back⟩ | ⟨home, type, member, spelled, number⟩
  · split
    · next home => exact Parser.name_reads lib defaultArch name plain value (home ▸ back) valid literal
    · have member : internal ∈ archTokens :=
        List.mem_map.mpr ⟨(internal, arch),
          List.mem_append_left _ (internal_arch_row arch internal known), rfl⟩
      exact Parser.dotted_reads lib defaultArch internal member [] [] name (by simp) (by simp) plain
        value (by rw [scmp_arch_round_trip arch internal known]; exact back) valid literal
  · rw [if_pos home, ← spelled, ← number]
    exact Parser.arch_reads lib defaultArch type member literal

theorem kept_name_tame (short : lib.ShortNames) (arch value : Word) (internal : TokenType)
    (member : internal ∈ archTokens) (name : Text)
    (resolved : lib.resolveNumArch arch value = some name)
    (kept : NameReads lib defaultArch arch value name) :
    Tame 40 (if arch = defaultArch then name else internal.spelling ++ '.' :: name) := by
  have length := short arch value name resolved
  have chars : ∀ c ∈ name, plainChar c = true := by
    rcases kept with ⟨plain, _⟩ | ⟨_, type, _, rfl, _⟩
    · exact fun c member => identifier_plain_char c (plain.inside c member)
    · exact (spelling_tame type).plain
  split
  · exact ⟨by omega, chars⟩
  · have spelled := arch_spelling_tame internal member
    exact tame_append 11 29 _ _ spelled (tame_cons 28 '.' _ rfl ⟨length, chars⟩)

theorem operand_shown (short : lib.ShortNames) (knows : lib.KnowsArchs)
    (ctx : StatCtx)
    (pile left : Nat) (line after : JumpLine) (src : Src) (conditional : line.ifCondition = true)
    (operand : line.cmpobj = src.obj) (kept : src.Kept lib defaultArch ctx)
    (resolved : Render.resolveOperand lib defaultArch ctx pile line = some (after, left)) :
    ∃ obj, after = { line with cmpobj := obj } ∧ OperandShown lib defaultArch src.obj obj := by
  unfold Render.resolveOperand at resolved
  rw [if_neg (by simp [conditional]), operand] at resolved
  by_cases arch : ctx.aStat = .arch
  · rw [if_pos arch] at resolved
    cases resolved
    exact ⟨_, rfl, arch_shown lib defaultArch src⟩
  · rw [if_neg arch] at resolved
    by_cases sysnr : ctx.aStat = .sysnr
    · rw [if_pos sysnr, Option.map_eq_some_iff] at resolved
      obtain ⟨⟨obj, rest⟩, named, same⟩ := resolved
      cases same
      refine ⟨obj, rfl, ?_⟩
      rcases resolve_sysnr_cases lib knows defaultArch ctx.arch pile left src.obj obj named with
        ⟨rfl, _⟩ | ⟨name, internal, real, found, known, rfl⟩
      · exact untouched_shown lib defaultArch src
      · obtain ⟨number, nameKept⟩ := kept sysnr real name found
        cases src with
        | x => exact absurd rfl number
        | k value =>
            have reads := kept_name_reads lib defaultArch ctx.arch value internal known name nameKept
            have member : internal ∈ archTokens :=
              List.mem_map.mpr ⟨(internal, ctx.arch),
                List.mem_append_left _ (internal_arch_row ctx.arch internal known), rfl⟩
            have tame := kept_name_tame lib defaultArch short ctx.arch value internal member name found
              nameKept
            exact named_shown lib defaultArch value _ (reads _) tame
    · rw [if_neg sysnr] at resolved
      cases resolved
      exact ⟨src.obj, by rw [← operand], untouched_shown lib defaultArch src⟩

end Operands

/-- Every name that `render` puts into the text of the program can be read again. -/
def NamesKept (lib : Libseccomp) (defaultArch : Word) (prog : List Filter) : Prop :=
  ∀ pc op src jt jf, insnAt prog pc = some (.jmp op src jt jf) →
    src.Kept lib defaultArch (contextAt defaultArch prog pc)

/-- A line that is printed like the one of the statement, can be read, and when it is read
says what `insn` does. -/
structure LineShown (lib : Libseccomp) (defaultArch : Word) (pc : Nat) (insn : Insn)
    (shown line : Line) (text : Text) : Prop where
  printed : Formatter.lineText shown (pc + 1) = some text
  plainly : Formatter.lineText line (pc + 1) = some text
  legible : line.Legible lib defaultArch (pc + 1)
  proper : line ≠ .empty
  tame : Tame 220 text
  meaning : ∀ again, line.Restated (pc + 1) again → insn.line.Restated (pc + 1) again

/-- The statement `render` leaves for the instruction at `pc`. -/
structure StatementShown (lib : Libseccomp) (defaultArch : Word) (pc : Nat) (insn : Insn)
    (shown : Statement) : Prop where
  codeNr : shown.codeNr = pc + 1
  comment : Formatter.printComment shown = Formatter.printComment (insn.statement (pc + 1))
  line : ∃ line text, LineShown lib defaultArch pc insn shown.line line text

section Statements

variable (lib : Libseccomp) (defaultArch : Word)

theorem legible_text (line : Line) (pc : Nat) (legible : line.Legible lib defaultArch pc) :
    ∃ text, Formatter.lineText line pc = some text := by
  have printed (obj : Obj) (types : List TokenType) (known : obj.type ∈ types)
      (each : ∀ type ∈ types, (Formatter.objPrint type).isSome) :
      ∃ text, Formatter.objPrinter obj = some text := by
    obtain ⟨handler, found⟩ := Option.isSome_iff_exists.mp (each _ known)
    exact ⟨handler obj, by rw [Formatter.objPrinter, found]; rfl⟩
  cases line with
  | assign line =>
      obtain ⟨shaped, _, _⟩ := legible
      obtain ⟨left, shownLeft⟩ := printed line.leftVar _ shaped.left (by decide)
      obtain ⟨right, shownRight⟩ := printed line.rightVar _ shaped.right (by decide)
      simp [Formatter.lineText, Formatter.assignLine, shownLeft, shownRight]
  | jump line =>
      by_cases conditional : line.ifCondition = true
      · obtain ⟨operand, shown, _⟩ := legible.operand conditional
        obtain ⟨registerText, register⟩ := printed (.of .A) [.A] List.mem_cons_self (by decide)
        simp only [Formatter.lineText, Formatter.jumpLine, conditional, register, shown,
          Bool.not_true, Bool.false_eq_true, if_false]
        split <;> exact ⟨_, rfl⟩
      · simp [Formatter.lineText, Formatter.jumpLine, conditional]
  | return_ line =>
      obtain ⟨text, shown⟩ := printed line.retObj _ legible.1 (by decide)
      simp [Formatter.lineText, Formatter.returnLine, shown]
  | empty => exact ⟨[], rfl⟩
  | eof | error line => exact absurd legible id

theorem insn_literals (insn : Insn) :
    ∀ obj ∈ insn.line.objs, ∀ literal, obj.literal = some literal → Tame 40 literal := by
  have none_ : ∀ obj ∈ insn.line.objs, obj.literal = none := by
    have source (src : Src) : src.obj.literal = none := by cases src <;> rfl
    cases insn with
    | ldAbs k =>
        have attr : (attrObj k).literal = none := by
          unfold attrObj
          split
          · split <;> rfl
          · rfl
        simp [Insn.line, Line.objs, AssignLine.mk', Obj.of, attr]
    | retK k =>
        obtain ⟨type, data, same, _⟩ := decode_return_cases k
        simp [Insn.line, Line.objs, same]
    | jmp op src jt jf => simp [Insn.line, Line.objs, jmpShown, source]
    | alu op src => simp [Insn.line, Line.objs, AssignLine.mk', Obj.of, source]
    | ldLen _ | ldImm _ _ | ldMem _ _ | st _ _ | neg | tax | txa | ja _ | retA =>
        simp [Insn.line, Line.objs, AssignLine.mk', jaShown, Obj.of, Obj.number, Obj.at]
  intro obj member literal kept
  rw [none_ obj member] at kept
  cases kept

theorem insn_unlabelled (insn : Insn) (pc : Nat) (small : pc < 2 ^ 16) :
    insn.line.Unlabelled pc := by
  cases insn with
  | ja k =>
      have far : k.toNat % 2 ^ 16 < 2 ^ 16 := Nat.mod_lt _ (by decide)
      refine ⟨rfl, rfl, ?_, ?_⟩
      · simp only [jaShown, Label.to]
        omega
      · simp only [jaShown, Label.zero]
        omega
  | jmp op src jt jf =>
      have first := jt.isLt
      have second := jf.isLt
      refine ⟨rfl, rfl, ?_, ?_⟩
      · simp only [jmpShown, Label.to]
        split <;> omega
      · simp only [jmpShown, Label.to]
        split <;> omega
  | ldAbs _ | ldLen _ | ldImm _ _ | ldMem _ _ | st _ _ | alu _ _ | neg | tax | txa | retA | retK _ =>
      trivial

theorem statement_untouched (pc : Nat) (small : pc + 1 < 2 ^ 16) (insn : Insn) :
    StatementShown lib defaultArch pc insn (insn.statement (pc + 1)) := by
  have legible := insn_legible lib defaultArch insn (pc + 1)
  obtain ⟨text, printed⟩ := legible_text lib defaultArch insn.line (pc + 1) legible
  have proper : insn.line ≠ .empty := by
    cases insn <;> simp [Insn.line, AssignLine.mk']
  exact
    { codeNr := rfl
      comment := rfl
      line := ⟨insn.line, text,
        { printed, plainly := printed, legible, proper
          tame := line_tame insn.line (pc + 1) (insn_literals insn)
            (insn_unlabelled insn (pc + 1) small) text printed
          meaning := fun _ restated => restated }⟩ }

theorem restated_operand (pc : Nat) (line : JumpLine) (obj : Obj) (again : Line)
    (conditional : line.ifCondition = true) (same : line.cmpobj.Same obj)
    (restated : Line.Restated pc (.jump { line with cmpobj := obj }) again) :
    Line.Restated pc (.jump line) again := by
  cases restated with
  | ja _ again always => exact absurd (conditional.symm.trans always) Bool.noConfusion
  | jump _ again _ also ifBang comparator operand jt jf =>
      have operand : line.cmpobj.Same again.cmpobj :=
        ⟨operand.1.trans same.1, operand.2.trans same.2⟩
      exact .jump line again conditional also ifBang comparator operand jt jf

theorem jump_shown (pc : Nat) (small : pc + 1 < 2 ^ 16) (op : JmpOp) (src : Src) (jt jf : BitVec 8) (obj : Obj)
    (shown : OperandShown lib defaultArch src.obj obj) :
    ∃ text, LineShown lib defaultArch pc (.jmp op src jt jf)
      (.jump { jmpShown op src jt jf with cmpobj := obj })
      (.jump { jmpShown op src jt jf with cmpobj := obj.numeral }) text := by
  have legible := jump_legible lib defaultArch (pc + 1) op src jt jf obj.numeral shown.readable
  obtain ⟨text, printed⟩ := legible_text lib defaultArch _ (pc + 1) legible
  have unlabelled := insn_unlabelled (.jmp op src jt jf) (pc + 1) small
  have tame := line_tame (.jump { jmpShown op src jt jf with cmpobj := obj.numeral }) (pc + 1)
    (by
      intro operand member
      rw [List.mem_singleton.mp member]
      exact shown.tame) unlabelled text printed
  refine ⟨text, ?_, printed, legible, by simp, tame, ?_⟩
  · rw [← printed]
    simp only [Formatter.lineText, Formatter.jumpLine, shown.text]
    rfl
  · intro again restated
    exact restated_operand (pc + 1) (jmpShown op src jt jf) obj.numeral again rfl shown.same restated

theorem statement_shown (short : lib.ShortNames) (knows : lib.KnowsArchs)
    (prog : List Filter) (pc : Nat) (small : pc + 1 < 2 ^ 16) (insn : Insn) (here : insnAt prog pc = some insn)
    (kept : NamesKept lib defaultArch prog) (state next : RenderState) (shown : Statement)
    (list : state.list (pc + 1) = contextAt defaultArch prog pc)
    (rendered : renderStatement lib defaultArch (insn.statement (pc + 1)) state = some (shown, next)) :
    StatementShown lib defaultArch pc insn shown := by
  have plain (none : ∀ line, ¬ (insn.statement (pc + 1)).Conditional line) :
      StatementShown lib defaultArch pc insn shown := by
    rw [plain_rendered lib defaultArch _ shown state next none rendered]
    exact statement_untouched lib defaultArch pc small insn
  cases insn with
  | jmp op src jt jf =>
      simp only [renderStatement, Insn.statement, Insn.line, track_jump_own,
        Option.map_eq_some_iff, Prod.mk.injEq] at rendered
      obtain ⟨⟨after, left⟩, resolved, rfl, _⟩ := rendered
      have own := kept pc op src jt jf here
      rw [← list] at own
      obtain ⟨obj, rfl, operand⟩ := operand_shown lib defaultArch short knows _ state.pile
        left _ after src rfl rfl own resolved
      obtain ⟨text, line⟩ := jump_shown lib defaultArch pc small op src jt jf obj operand
      exact { codeNr := rfl, comment := rfl, line := ⟨_, text, line⟩ }
  | ja k =>
      apply plain
      rintro line ⟨jumps, conditional⟩
      cases jumps
      cases conditional
  | ldAbs _ | ldLen _ | ldImm _ _ | ldMem _ _ | st _ _ | alu _ _ | neg | tax | txa | retA | retK _ =>
      apply plain
      rintro line ⟨jumps, _⟩
      cases jumps

/-- Every statement that `render` leaves can be read as the instruction it was made of. -/
theorem rendered_shown (short : lib.ShortNames) (knows : lib.KnowsArchs)
    (pile : Nat) (prog : List Filter) (few : prog.length ≤ bpfMaxInsns) (accepted : Accepted16 prog) (statements shown : List Statement)
    (decodes : Decodes prog statements) (kept : NamesKept lib defaultArch prog)
    (rendered : render lib defaultArch pile statements = some shown) :
    shown.length = prog.length ∧ ∀ pc insn, insnAt prog pc = some insn →
      ∃ statement, shown[pc]? = some statement ∧
        StatementShown lib defaultArch pc insn statement := by
  obtain ⟨⟨after, last⟩, whole, rfl⟩ := Option.map_eq_some_iff.mp rendered
  obtain ⟨length, each⟩ := render_from_each lib defaultArch statements _ last after whole
  constructor
  · rw [length, decodes.length]
  · intro pc insn here
    obtain ⟨state, next, statement, reached, step, there⟩ := each pc _ (decodes.each pc insn here)
    have inside : pc < prog.length := by
      by_contra outside
      have none : prog[pc]? = none := List.getElem?_eq_none_iff.mpr (Nat.le_of_not_lt outside)
      simp [insnAt, none] at here
    have list := held_context lib defaultArch pile prog accepted statements decodes pc inside
      (state.list (pc + 1)) ⟨state, reached, rfl⟩
    exact ⟨statement, there,
      statement_shown lib defaultArch short knows prog pc (by
        simp only [bpfMaxInsns] at few
        omega) insn here kept state next statement list step⟩

end Statements

section Renders

theorem insn_decoded (insn : Insn) : insn.line.Decoded := by
  cases insn with
  | ldLen dst | ldImm dst _ | ldMem dst _ =>
      cases dst <;> simp [Insn.line, AssignLine.mk', Line.Decoded, Reg.type, Obj.of]
  | ldAbs _ | alu _ _ | neg | txa | tax | st _ _ =>
      simp [Insn.line, AssignLine.mk', Line.Decoded, Obj.of, Obj.at]
  | ja _ | jmp _ _ _ _ | retA | retK _ => trivial

theorem attr_no_slot (k : Word) : (attrObj k).type ≠ .mem := by
  unfold attrObj
  cases row : absTable (k.toNat / 4) with
  | none => simp [Obj.of]
  | some type =>
      have apart := abs_table_type _ type row
      dsimp only
      split
      · exact apart
      · exact apart

theorem insn_within (insn : Insn) (pc flen : Nat) (mask : BitVec 16) (inside : pc < flen)
    (admissible : insn.Admissible pc flen mask) :
    Render.within (flen + 2) (insn.statement (pc + 1)) = true := by
  cases insn with
  | ldAbs k =>
      refine (assign_within _ _ _ rfl).mpr ⟨?_, ?_, ?_⟩
      · exact Nat.succ_lt_succ (Nat.succ_lt_succ inside)
      · simp [Obj.of]
      · exact fun slot => absurd slot.2 (attr_no_slot k)
  | ldMem dst k =>
      refine (assign_within _ _ _ rfl).mpr ⟨?_, ?_, ?_⟩
      · exact Nat.succ_lt_succ (Nat.succ_lt_succ inside)
      · cases dst <;> simp [Obj.of, Reg.type]
      · exact fun _ => admissible.1
  | st src k =>
      refine (assign_within _ _ _ rfl).mpr ⟨?_, ?_, ?_⟩
      · exact Nat.succ_lt_succ (Nat.succ_lt_succ inside)
      · exact fun _ => admissible
      · cases src <;> simp [Obj.of, Reg.type]
  | ldLen dst | ldImm dst k =>
      refine (assign_within _ _ _ rfl).mpr ⟨?_, ?_, ?_⟩
      · exact Nat.succ_lt_succ (Nat.succ_lt_succ inside)
      · cases dst <;> simp [Obj.of, Reg.type]
      · simp [Obj.of, Obj.number]
  | alu op src =>
      refine (assign_within _ _ _ rfl).mpr ⟨?_, ?_, ?_⟩
      · exact Nat.succ_lt_succ (Nat.succ_lt_succ inside)
      · simp [Obj.of]
      · cases src <;> simp [Src.obj, Obj.of, Obj.number]
  | neg | tax | txa =>
      refine (assign_within _ _ _ rfl).mpr ⟨?_, ?_, ?_⟩
      · exact Nat.succ_lt_succ (Nat.succ_lt_succ inside)
      · simp [Obj.of]
      · simp [Obj.of]
  | ja k =>
      refine (jump_within _ _ _ rfl).mpr ⟨?_, ?_⟩
      · simp only [Insn.Admissible] at admissible
        have small : k.toNat % 2 ^ 16 ≤ k.toNat := Nat.mod_le _ _
        simp only [Insn.statement, jaShown, Label.to]
        omega
      · exact fun conditional => Bool.noConfusion conditional
  | jmp op src jt jf =>
      simp only [Insn.Admissible] at admissible
      refine (jump_within _ _ _ rfl).mpr ⟨?_, fun _ => ?_⟩
      · simp only [Insn.statement, jmpShown, Label.to]
        split <;> omega
      · simp only [Insn.statement, jmpShown, Label.to]
        split <;> omega
  | retA | retK _ => rfl

theorem accepted_renders (lib : Libseccomp) (short : lib.ShortNames) (scmpArch : Word)
    (prog : List Filter) (accepted : Accepted16 prog) (statements : List Statement)
    (decodes : Decodes prog statements) :
    ∃ shown, render lib scmpArch (pileSize prog.length) statements = some shown := by
  have each (statement : Statement) (member : statement ∈ statements) :
      statement.line.Decoded ∧ Render.within (statements.length + 2) statement = true := by
    obtain ⟨pc, there⟩ := List.mem_iff_getElem?.mp member
    have inside : pc < prog.length := by
      rw [← decodes.length]
      exact (List.getElem?_eq_some_iff.mp there).1
    obtain ⟨insn, here, admissible⟩ := accepted16_insn accepted pc inside
    rw [decodes.each pc insn here] at there
    cases there
    rw [decodes.length]
    exact ⟨insn_decoded insn, insn_within insn pc prog.length _ inside admissible⟩
  have room : 40 * statements.length ≤ pileSize prog.length := by
    unfold pileSize
    rw [decodes.length]
    omega
  obtain ⟨shown, rendered⟩ := (from_within_iff lib short scmpArch (statements.length + 2) statements
    (fun statement member => (each statement member).1)
    { list := startList scmpArch, pile := pileSize prog.length } room).mpr
    fun statement member => (each statement member).2
  exact ⟨shown, render_within_same lib scmpArch _ statements shown rendered⟩

theorem operand_prints (lib : Libseccomp) (defaultArch : Word) (ctx : StatCtx) (pile left : Nat)
    (line after : JumpLine) (src : Src) (operand : line.cmpobj = src.obj)
    (resolved : Render.resolveOperand lib defaultArch ctx pile line = some (after, left)) :
    ∃ obj text, after = { line with cmpobj := obj } ∧ Formatter.objPrinter obj = some text := by
  have kept : ∃ text, Formatter.objPrinter line.cmpobj = some text := by
    rw [operand]
    cases src with
    | x => exact ⟨_, rfl⟩
    | k value => exact ⟨_, rfl⟩
  obtain ⟨text, printed⟩ := kept
  have same : line = { line with cmpobj := line.cmpobj } := rfl
  unfold Render.resolveOperand at resolved
  split at resolved
  · cases resolved
    exact ⟨_, text, same, printed⟩
  · split at resolved
    · cases resolved
      unfold Render.tryResolveArch
      split
      · exact ⟨_, text, rfl, printed⟩
      · exact ⟨_, _, rfl, rfl⟩
    · split at resolved
      · obtain ⟨⟨obj, rest⟩, named, rfl, rfl⟩ := Option.map_eq_some_iff.mp resolved
        unfold Render.tryResolveSysnr at named
        split at named
        · cases named
          exact ⟨_, text, rfl, printed⟩
        · split at named
          · cases named
            exact ⟨_, text, rfl, printed⟩
          · obtain ⟨⟨literal, more⟩, _, rfl, rfl⟩ := Option.map_eq_some_iff.mp named
            exact ⟨_, _, rfl, rfl⟩
      · cases resolved
        exact ⟨_, text, same, printed⟩

theorem rendered_prints (lib : Libseccomp) (defaultArch : Word) (nr : Nat) (insn : Insn)
    (state next : RenderState) (shown : Statement)
    (rendered : renderStatement lib defaultArch (insn.statement nr) state = some (shown, next)) :
    ∃ text, printStatement shown = some text := by
  have plain (none : ∀ line, ¬ (insn.statement nr).Conditional line) :
      ∃ text, printStatement shown = some text := by
    rw [plain_rendered lib defaultArch _ shown state next none rendered, print_statement_text]
    obtain ⟨text, printed⟩ := legible_text lib defaultArch insn.line nr
      (insn_legible lib defaultArch insn nr)
    exact ⟨_, congrArg (Option.map _) printed⟩
  cases insn with
  | jmp op src jt jf =>
      simp only [renderStatement, Insn.statement, Insn.line, track_jump_own,
        Option.map_eq_some_iff, Prod.mk.injEq] at rendered
      obtain ⟨⟨after, left⟩, resolved, rfl, _⟩ := rendered
      obtain ⟨obj, text, rfl, printed⟩ := operand_prints lib defaultArch _ state.pile left _ after src
        rfl resolved
      have register : Formatter.objPrinter (.of .A) = some TokenType.A.spelling := rfl
      have conditional : (jmpShown op src jt jf).ifCondition = true := rfl
      have shown : ∃ text,
          Formatter.jumpLine { jmpShown op src jt jf with cmpobj := obj } nr = some text := by
        simp only [Formatter.jumpLine, conditional, register, printed, Bool.not_true,
          Bool.false_eq_true, if_false]
        split
        · exact ⟨_, rfl⟩
        · exact ⟨_, rfl⟩
      obtain ⟨text, jump⟩ := shown
      rw [print_statement_text]
      exact ⟨_, congrArg (Option.map _) jump⟩
  | ja k =>
      apply plain
      rintro line ⟨jumps, conditional⟩
      cases jumps
      cases conditional
  | ldAbs _ | ldLen _ | ldImm _ _ | ldMem _ _ | st _ _ | alu _ _ | neg | tax | txa | retA | retK _ =>
      apply plain
      rintro line ⟨jumps, _⟩
      cases jumps

theorem print_from_texts (i : Nat) (prog : List Filter) (statements : List Statement)
    (length : statements.length = prog.length)
    (each : ∀ statement ∈ statements, ∃ text, printStatement statement = some text) :
    ∃ body, printFrom i prog statements = some body := by
  induction statements generalizing i prog with
  | nil => cases prog <;> exact ⟨[], rfl⟩
  | cons statement later ih =>
      cases prog with
      | nil => cases length
      | cons f filters =>
          obtain ⟨text, printed⟩ := each statement List.mem_cons_self
          obtain ⟨body, rest⟩ := ih (i + 1) filters (Nat.succ.inj length) fun other member =>
            each other (List.mem_cons_of_mem _ member)
          simp only [printFrom, printFilter, printed, rest, Option.map_some]
          exact ⟨_, rfl⟩

theorem accepted_prints (lib : Libseccomp) (short : lib.ShortNames) (scmpArch : Word)
    (prog : List Filter) (accepted : Accepted16 prog) (pid : Nat) :
    ∃ text, printProg lib scmpArch prog pid false = .ok (some text) := by
  obtain ⟨statements, decodes⟩ := clean_decodes prog accepted.nonempty accepted.clean accepted.small
  obtain ⟨shown, rendered⟩ := accepted_renders lib short scmpArch prog accepted statements decodes
  have printed : ∃ body, printFrom 1 prog shown = some body := by
    obtain ⟨⟨after, last⟩, whole, rfl⟩ := Option.map_eq_some_iff.mp rendered
    obtain ⟨length, each⟩ := render_from_each lib scmpArch statements _ last after whole
    apply print_from_texts 1 prog after (length.trans decodes.length)
    intro statement member
    obtain ⟨pc, there⟩ := List.mem_iff_getElem?.mp member
    have inside : pc < prog.length := by
      rw [← decodes.length, ← length]
      exact (List.getElem?_eq_some_iff.mp there).1
    obtain ⟨insn, here, _⟩ := accepted16_insn accepted pc inside
    obtain ⟨state, next, other, _, step, found⟩ := each pc _ (decodes.each pc insn here)
    rw [there] at found
    cases found
    exact rendered_prints lib scmpArch (pc + 1) insn state next statement step
  obtain ⟨body, texts⟩ := printed
  unfold printProg
  rw [if_neg accepted.nonempty, decodes.decoded]
  simp [Except.map, rendered, texts]

end Renders

end Ceccomp
