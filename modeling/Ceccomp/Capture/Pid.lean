import Ceccomp.Capture.Share

/-!
`capture_pid.bpf.c` and the half of `capture.c` that reads its events: programs
travel through the ring buffer in chunks, with a status in each event that tells
the reader where a program ends or that it never will.
-/

namespace Ceccomp

def chunkInsnSize : Nat := 4096

def bpfInsnSize : Nat := 8

def chunkSize : Nat := chunkInsnSize * bpfInsnSize

section Capture

variable {Code : Type}

/-- `pid_event`, its `filters` holding eBPF instructions. -/
structure PidEvent (Code : Type) where
  status : PidEventStatus
  ebpfArch : EbpfArch
  flenTotal : Nat
  filterCount : Nat
  flen : Nat
  filters : List Code

inductive ChunkFault where
  | none | reserve | read
  deriving DecidableEq, Repr

/-- A filter of the target: its program, whose length is a 32-bit field, and which of
the reads and reservations on the way to it and in it fail. -/
structure AttachedFilter (Code : Type) where
  insns : List Code
  short : insns.length < 2 ^ 32
  progRead : Bool
  lenRead : Bool
  chunks : Nat → ChunkFault
  prevRead : Bool

/-- `dump_chunk`: the event it submits, and whether the loop goes on. -/
def dumpChunk (arch : EbpfArch) (filterCount : Nat) (insns : List Code) (fault : ChunkFault)
    (chunkIndex : Nat) : Option (PidEvent Code) × Bool :=
  let flen := insns.length
  let chunkStartOffset := chunkIndex * chunkInsnSize % 2 ^ 32
  let remaining := (flen + 2 ^ 32 - chunkStartOffset) % 2 ^ 32
  let status := if remaining ≤ chunkInsnSize then PidEventStatus.progDone else .chunkDone
  let remainingInsns := if remaining ≤ chunkInsnSize then remaining else chunkInsnSize
  let leftover := remainingInsns * bpfInsnSize % 2 ^ 16
  let leftover := if leftover > chunkSize then chunkSize else leftover
  let event : PidEvent Code :=
    { status, ebpfArch := arch, flenTotal := flen, filterCount, flen := remainingInsns % 2 ^ 16
      filters := (insns.drop chunkStartOffset).take (leftover / bpfInsnSize) }
  match fault with
  | .reserve => (none, false)
  | .read => (some { event with status := .progAborted, filters := [] }, false)
  | .none => (some event, true)

/-- `bpf_loop`: the events of the chunks from `chunkIndex` on. -/
def dumpChunks (arch : EbpfArch) (filterCount : Nat) (insns : List Code)
    (chunks : Nat → ChunkFault) : Nat → Nat → List (PidEvent Code)
  | 0, _ => []
  | loops + 1, chunkIndex =>
      let (event, goesOn) := dumpChunk arch filterCount insns (chunks chunkIndex) chunkIndex
      event.toList ++
        if goesOn then dumpChunks arch filterCount insns chunks loops (chunkIndex + 1) else []

/-- `loop_times`, computed with `sizeof` in 64 bits. -/
def loopTimes (flen : Nat) : Nat := (flen + chunkInsnSize - 1) / chunkInsnSize

def dumpFilter (arch : EbpfArch) (filterCount : Nat) (filter : AttachedFilter Code) :
    List (PidEvent Code) :=
  if !filter.progRead then []
  else if !filter.lenRead then []
  else dumpChunks arch filterCount filter.insns filter.chunks (loopTimes filter.insns.length) 0

/-- The loop over the filters, at most `turns` of them: the events, and how it ended. -/
def dumpFilters (arch : EbpfArch) (filterCount : Nat) :
    Nat → List (AttachedFilter Code) → List (PidEvent Code) × PidEventStatus
  | _, [] => ([], .allDone)
  | 0, _ :: _ => ([], .truncated)
  | turns + 1, filter :: rest =>
      let events := dumpFilter arch filterCount filter
      if !filter.prevRead then (events, .taskAborted)
      else
        let (later, status) := dumpFilters arch filterCount turns rest
        (events ++ later, status)

/-- The target as `capture_pid` finds it; `false` and `none` where a read fails. -/
structure CaptureTarget (Code : Type) where
  found : Bool
  filterRead : Bool
  filterCount : Option Nat
  arch : Option EbpfArch
  filters : List (AttachedFilter Code)
  -- whether there is room for the last event
  endReserve : Bool

/-- The event behind the label `end_null`; of its fields only `status` is read. -/
def CaptureTarget.last (target : CaptureTarget Code) (status : PidEventStatus) :
    List (PidEvent Code) :=
  if target.endReserve then
    [{ status, ebpfArch := .x64, flenTotal := 0, filterCount := 0, flen := 0, filters := [] }]
  else []

/-- `capture_pid` in the kernel: every event it submits, in order. -/
def CaptureTarget.events (target : CaptureTarget Code) : List (PidEvent Code) :=
  if !target.found then target.last .pidNotFound
  else
    match target.filterRead, target.filterCount, target.arch with
    | true, some filterCount, some arch =>
        let (events, status) := dumpFilters arch filterCount 32 target.filters
        events ++ target.last status
    | _, _, _ => target.last .taskAborted

/-- What `do_ebpf_disasm` is called with: words that nothing was written to are `none`. -/
structure DisasmCall (Code : Type) where
  arch : EbpfArch
  insns : List (Option Code)

/-- The static `insn_offset` and the buffer, if one is allocated. -/
structure PidReader (Code : Type) where
  insnOffset : Nat
  ebpfInsns : Option (List (Option Code))

def PidReader.initial : PidReader Code := { insnOffset := 0, ebpfInsns := none }

inductive Reaction (Code : Type) where
  | next (reader : PidReader Code) (call : Option (DisasmCall Code))
  | exit
  -- `memcpy` writes behind the buffer, or the disassembler reads behind it
  | overrun

def onPidEvents (event : PidEvent Code) (c : PidReader Code) : Reaction Code :=
  match event.status with
  | .pidNotFound => .exit
  | .chunkDone | .progDone =>
      let ebpfInsns := c.ebpfInsns.getD (List.replicate event.flenTotal none)
      if c.insnOffset + event.flen > ebpfInsns.length then .overrun
      else
        let copied := (event.filters.take event.flen).map some
        let ebpfInsns :=
          ebpfInsns.take c.insnOffset ++ copied ++ ebpfInsns.drop (c.insnOffset + event.flen)
        if event.status = .chunkDone then
          .next { insnOffset := c.insnOffset + event.flen, ebpfInsns := some ebpfInsns } none
        else if event.flenTotal > ebpfInsns.length then .overrun
        else
          .next .initial (some { arch := event.ebpfArch, insns := ebpfInsns.take event.flenTotal })
  | .progAborted => .next .initial none
  | .truncated | .taskAborted | .allDone => .next c none

/-- The calls of `do_ebpf_disasm` for the events from here on; `none` is an overrun. -/
def readEvents : List (PidEvent Code) → PidReader Code → Option (List (DisasmCall Code))
  | [], _ => some []
  | event :: rest, c =>
      match onPidEvents event c with
      | .overrun => none
      | .exit => some []
      | .next c call => (readEvents rest c).map (call.toList ++ ·)

def chunkAt (insns : List Code) (i : Nat) : List Code :=
  (insns.drop (i * chunkInsnSize)).take chunkInsnSize

theorem chunk_at_length (insns : List Code) (i : Nat) :
    (chunkAt insns i).length =
      if insns.length - i * chunkInsnSize ≤ chunkInsnSize then insns.length - i * chunkInsnSize
      else chunkInsnSize := by
  rw [chunkAt, List.length_take, List.length_drop]
  split <;> omega

theorem chunk_at_take (insns : List Code) (i : Nat) :
    (insns.drop (i * chunkInsnSize)).take (chunkAt insns i).length = chunkAt insns i := by
  rw [chunkAt, List.length_take, List.take_eq_take_iff]
  omega

theorem dump_chunk_event (arch : EbpfArch) (filterCount : Nat) (insns : List Code) (i : Nat)
    (short : insns.length < 2 ^ 32) (inside : i * chunkInsnSize < insns.length) :
    dumpChunk arch filterCount insns .none i =
      (some
        { status := if insns.length ≤ (i + 1) * chunkInsnSize then .progDone else .chunkDone
          ebpfArch := arch, flenTotal := insns.length, filterCount
          flen := (chunkAt insns i).length, filters := chunkAt insns i }, true) := by
  have start : i * chunkInsnSize % 2 ^ 32 = i * chunkInsnSize := Nat.mod_eq_of_lt (by omega)
  have remaining : (insns.length + 2 ^ 32 - i * chunkInsnSize) % 2 ^ 32 =
      insns.length - i * chunkInsnSize := by omega
  have status : insns.length - i * chunkInsnSize ≤ chunkInsnSize ↔
      insns.length ≤ (i + 1) * chunkInsnSize := by
    rw [Nat.add_mul]
    omega
  have few : (chunkAt insns i).length ≤ chunkInsnSize := by
    rw [chunkAt, List.length_take]
    exact Nat.min_le_left _ _
  have flen : (chunkAt insns i).length % 2 ^ 16 = (chunkAt insns i).length := by
    simp only [chunkInsnSize] at few
    omega
  have leftover : (chunkAt insns i).length * bpfInsnSize % 2 ^ 16 =
      (chunkAt insns i).length * bpfInsnSize := by
    simp only [chunkInsnSize, bpfInsnSize] at few ⊢
    omega
  have inChunk : ¬ (chunkAt insns i).length * bpfInsnSize > chunkSize := by
    simp only [chunkSize, bpfInsnSize]
    omega
  have whole : (chunkAt insns i).length * bpfInsnSize / bpfInsnSize = (chunkAt insns i).length :=
    Nat.mul_div_cancel _ (by decide)
  unfold dumpChunk
  simp only [start, remaining, ← chunk_at_length insns i, flen, leftover, inChunk, if_false, whole,
    chunk_at_take]
  simp only [status]

def PidReader.holding (insns : List Code) (i : Nat) : PidReader Code :=
  if i = 0 then .initial
  else
    { insnOffset := i * chunkInsnSize
      ebpfInsns :=
        some ((insns.take (i * chunkInsnSize)).map some ++
          List.replicate (insns.length - i * chunkInsnSize) none) }

theorem holding_buffer (insns : List Code) (i : Nat) :
    (PidReader.holding insns i).insnOffset = i * chunkInsnSize ∧
      (PidReader.holding insns i).ebpfInsns.getD (List.replicate insns.length none) =
        (insns.take (i * chunkInsnSize)).map some ++
          List.replicate (insns.length - i * chunkInsnSize) none := by
  unfold PidReader.holding
  split
  · next first =>
      subst first
      simp [PidReader.initial]
  · exact ⟨rfl, rfl⟩

theorem copied_chunk (insns : List Code) (i : Nat) (inside : i * chunkInsnSize < insns.length) :
    let buffer := (insns.take (i * chunkInsnSize)).map some ++
      List.replicate (insns.length - i * chunkInsnSize) none
    buffer.length = insns.length ∧
      buffer.take (i * chunkInsnSize) ++ (chunkAt insns i).map some ++
          buffer.drop (i * chunkInsnSize + (chunkAt insns i).length) =
        (insns.take ((i + 1) * chunkInsnSize)).map some ++
          List.replicate (insns.length - (i + 1) * chunkInsnSize) none := by
  intro buffer
  have size : ((insns.take (i * chunkInsnSize)).map some).length = i * chunkInsnSize := by
    simp only [List.length_map, List.length_take]
    omega
  have front : buffer.take (i * chunkInsnSize) = (insns.take (i * chunkInsnSize)).map some := by
    exact List.take_left' size
  have back : buffer.drop (i * chunkInsnSize + (chunkAt insns i).length) =
      List.replicate (insns.length - i * chunkInsnSize - (chunkAt insns i).length) none := by
    rw [← List.drop_drop, List.drop_left' size, List.drop_replicate]
  have ahead : insns.take ((i + 1) * chunkInsnSize) =
      insns.take (i * chunkInsnSize) ++ chunkAt insns i := by
    rw [Nat.add_mul, Nat.one_mul, List.take_add]
    rfl
  have left : insns.length - i * chunkInsnSize - (chunkAt insns i).length =
      insns.length - (i + 1) * chunkInsnSize := by
    rw [chunk_at_length, Nat.add_mul]
    split <;> omega
  refine ⟨?_, ?_⟩
  · rw [List.length_append, size, List.length_replicate]
    omega
  · rw [front, back, ahead, left, List.map_append]

/-- The reader takes the next chunk of the program it is at, and hands the program on
with its last one. -/
theorem read_chunk (insns : List Code) (i : Nat) (arch : EbpfArch) (filterCount : Nat)
    (inside : i * chunkInsnSize < insns.length) :
    onPidEvents
        { status := if insns.length ≤ (i + 1) * chunkInsnSize then .progDone else .chunkDone
          ebpfArch := arch, flenTotal := insns.length, filterCount
          flen := (chunkAt insns i).length, filters := chunkAt insns i } (.holding insns i) =
      if insns.length ≤ (i + 1) * chunkInsnSize then
        .next .initial (some { arch, insns := insns.map some })
      else .next (.holding insns (i + 1)) none := by
  obtain ⟨offset, buffer⟩ := holding_buffer insns i
  obtain ⟨length, copied⟩ := copied_chunk insns i inside
  have size := chunk_at_length insns i
  have fits : ¬ i * chunkInsnSize + (chunkAt insns i).length > insns.length := by
    rw [size]
    split <;> omega
  have next : i * chunkInsnSize + (chunkAt insns i).length = (i + 1) * chunkInsnSize ∨
      insns.length ≤ (i + 1) * chunkInsnSize := by
    rw [size, Nat.add_mul]
    split <;> omega
  by_cases done : insns.length ≤ (i + 1) * chunkInsnSize
  · have all : insns.take ((i + 1) * chunkInsnSize) = insns := List.take_of_length_le done
    have left : insns.length - (i + 1) * chunkInsnSize = 0 := by omega
    simp only [onPidEvents, done, if_true, offset, buffer, length, fits, if_false,
      List.take_length, copied]
    simp [all, left, List.take_of_length_le]
  · have whole := next.resolve_right done
    simp only [onPidEvents, done, if_false, offset, buffer, length, fits, List.take_length, copied,
      if_true]
    rw [PidReader.holding, if_neg (Nat.succ_ne_zero i), whole]

theorem read_events_next (event : PidEvent Code) (rest : List (PidEvent Code))
    (c after : PidReader Code) (call : Option (DisasmCall Code))
    (reaction : onPidEvents event c = .next after call) :
    readEvents (event :: rest) c = (readEvents rest after).map (call.toList ++ ·) := by
  rw [readEvents, reaction]

/-- How the chunks of a program from number `i` on leave the reader. -/
inductive ChunksRead (insns : List Code) (chunks : Nat → ChunkFault) (i loops : Nat) :
    List (DisasmCall Code) → PidReader Code → Prop where
  | done (arch : EbpfArch) : ChunksRead insns chunks i loops [{ arch, insns := insns.map some }] .initial
  | aborted : ChunksRead insns chunks i loops [] .initial
  | cut (j : Nat) (after : i ≤ j) (inside : j < i + loops) (failed : chunks j = .reserve)
      (before : ∀ k, i ≤ k → k < j → chunks k = .none) :
      ChunksRead insns chunks i loops [] (.holding insns j)

theorem read_chunks (insns : List Code) (chunks : Nat → ChunkFault) (arch : EbpfArch)
    (filterCount : Nat) (short : insns.length < 2 ^ 32) (rest : List (PidEvent Code))
    (loops i : Nat) (counts : ∀ j, i ≤ j → (j * chunkInsnSize < insns.length ↔ j < i + loops))
    (more : 0 < loops) :
    ∃ calls reader, ChunksRead insns chunks i loops calls reader ∧
      readEvents (dumpChunks arch filterCount insns chunks loops i ++ rest) (.holding insns i) =
        (readEvents rest reader).map (calls ++ ·) := by
  -- the chunks that are still to come; the reader holds the first `i` of them
  induction loops generalizing i with
  | zero => omega
  | succ loops ih =>
      have inside := (counts i (Nat.le_refl i)).mpr (by omega)
      have event := dump_chunk_event arch filterCount insns i short inside
      cases fault : chunks i with
      -- the loop ends, and the reader is left waiting for chunk `i`
      | reserve =>
          refine ⟨[], .holding insns i, .cut i (Nat.le_refl i) (by omega) fault (by omega), ?_⟩
          simp [dumpChunks, fault, dumpChunk]
      -- an abort resets the reader
      | read =>
          refine ⟨[], .initial, .aborted, ?_⟩
          simp [dumpChunks, fault, dumpChunk, readEvents, onPidEvents]
      | none =>
          have taken := read_chunk insns i arch filterCount inside
          rw [dumpChunks, fault, event]
          simp only [Option.toList_some, if_true, List.cons_append, readEvents, taken]
          by_cases last : insns.length ≤ (i + 1) * chunkInsnSize
          · have over_ : loops = 0 := by
              have behind := counts (i + 1) (by omega)
              omega
            subst over_
            refine ⟨_, _, .done arch, ?_⟩
            simp [last, dumpChunks]
          · have ahead : 0 < loops := by
              have behind := counts (i + 1) (by omega)
              omega
            obtain ⟨calls, reader, run, same⟩ := ih (i + 1)
              (fun j le => by rw [counts j (by omega)]; omega) ahead
            refine ⟨calls, reader, ?_, ?_⟩
            · cases run with
              | done arch => exact .done arch
              | aborted => exact .aborted
              | cut j after inside failed before =>
                  refine .cut j (by omega) (by omega) failed fun k le less => ?_
                  rcases Nat.eq_or_lt_of_le le with here | later
                  · exact here ▸ fault
                  · exact before k later less
            · simpa [last] using same

def AttachedFilter.turns (filter : AttachedFilter Code) : Nat :=
  if filter.progRead && filter.lenRead then loopTimes filter.insns.length else 0

/-- A reservation fails for a chunk behind others of the program that were sent. -/
def AttachedFilter.Cut (filter : AttachedFilter Code) : Prop :=
  ∃ j, 1 ≤ j ∧ j < filter.turns ∧ filter.chunks j = .reserve ∧
    ∀ k < j, filter.chunks k = .none

def AttachedFilter.Silent (filter : AttachedFilter Code) : Prop :=
  filter.turns = 0 ∨ filter.chunks 0 = .reserve

/-- The only event submitted for the filter says that it is aborted. -/
def AttachedFilter.Aborts (filter : AttachedFilter Code) : Prop :=
  filter.turns ≠ 0 ∧ filter.chunks 0 = .read

/-- The next filter behind a cut one that submits an event is aborted at once. -/
def AbortsNext (filters : List (AttachedFilter Code)) : Prop :=
  ∀ between later after, filters = between ++ later :: after →
    (∀ filter ∈ between, filter.Silent) → later.Silent ∨ later.Aborts

def Resynchronised (filters : List (AttachedFilter Code)) : Prop :=
  ∀ before cut after, filters = before ++ cut :: after → cut.Cut → AbortsNext after

/-- The filters that the loop of `capture_pid` comes to. -/
def visited : Nat → List (AttachedFilter Code) → List (AttachedFilter Code)
  | _, [] => []
  | 0, _ :: _ => []
  | turns + 1, filter :: rest =>
      if !filter.prevRead then [filter] else filter :: visited turns rest

theorem visited_sublist (turns : Nat) (filters : List (AttachedFilter Code)) :
    (visited turns filters).Sublist filters := by
  induction filters generalizing turns with
  | nil => simp [visited]
  | cons filter rest ih =>
      cases turns with
      | zero => exact List.nil_sublist _
      | succ turns =>
          rw [visited]
          split
          · exact (List.nil_sublist rest).cons_cons filter
          · exact (ih turns).cons_cons filter

theorem dump_filters_events (arch : EbpfArch) (filterCount turns : Nat)
    (filters : List (AttachedFilter Code)) :
    (dumpFilters arch filterCount turns filters).1 =
      (visited turns filters).flatMap (dumpFilter arch filterCount) := by
  induction filters generalizing turns with
  | nil => simp [dumpFilters, visited]
  | cons filter rest ih =>
      cases turns with
      | zero => rfl
      | succ turns =>
          rw [dumpFilters, visited]
          split
          · simp
          · simp [ih]

theorem dump_filters_status (arch : EbpfArch) (filterCount turns : Nat)
    (filters : List (AttachedFilter Code)) :
    (dumpFilters arch filterCount turns filters).2 ∈
      [PidEventStatus.allDone, .truncated, .taskAborted] := by
  induction filters generalizing turns with
  | nil => simp [dumpFilters]
  | cons filter rest ih =>
      cases turns with
      | zero => simp [dumpFilters]
      | succ turns =>
          rw [dumpFilters]
          split
          · simp
          · exact ih turns

theorem chunks_counted (filter : AttachedFilter Code) (some_ : 0 < filter.turns) (j : Nat) :
    j * chunkInsnSize < filter.insns.length ↔ j < filter.turns := by
  have short := filter.short
  unfold AttachedFilter.turns at some_ ⊢
  split at some_
  · next reads =>
      rw [if_pos reads]
      simp only [loopTimes, chunkInsnSize] at some_ ⊢
      omega
  · omega

theorem dump_filter_chunks (arch : EbpfArch) (filterCount : Nat) (filter : AttachedFilter Code) :
    dumpFilter arch filterCount filter =
      dumpChunks arch filterCount filter.insns filter.chunks filter.turns 0 := by
  unfold dumpFilter AttachedFilter.turns
  cases filter.progRead <;> cases filter.lenRead <;> rfl

/-- One filter: it is handed on in full or not at all, and the reader is left with a
part of it only if it is cut. -/
theorem read_filter (arch : EbpfArch) (filterCount : Nat) (filter : AttachedFilter Code)
    (rest : List (PidEvent Code)) :
    ∃ calls reader,
      (calls.map DisasmCall.insns).Sublist [filter.insns.map some] ∧
      (reader = .initial ∨ filter.Cut) ∧
      readEvents (dumpFilter arch filterCount filter ++ rest) .initial =
        (readEvents rest reader).map (calls ++ ·) := by
  rw [dump_filter_chunks]
  rcases Nat.eq_zero_or_pos filter.turns with none_ | some_
  · refine ⟨[], .initial, List.nil_sublist _, Or.inl rfl, ?_⟩
    simp [none_, dumpChunks]
  · obtain ⟨calls, reader, run, same⟩ := read_chunks filter.insns filter.chunks arch filterCount
      filter.short rest filter.turns 0
      (fun j _ => by rw [chunks_counted filter some_, Nat.zero_add]) some_
    refine ⟨calls, reader, ?_, ?_, same⟩
    · cases run with
      | done arch => exact List.Sublist.refl _
      | aborted | cut => exact List.nil_sublist _
    · cases run with
      | done | aborted => exact Or.inl rfl
      | cut j after inside failed before =>
          rcases Nat.eq_zero_or_pos j with first | later
          · subst first
            exact Or.inl rfl
          · exact Or.inr ⟨j, later, by omega, failed, fun k less => before k (by omega) less⟩

theorem silent_dump (arch : EbpfArch) (filterCount : Nat) (filter : AttachedFilter Code)
    (silent : filter.Silent) : dumpFilter arch filterCount filter = [] := by
  rw [dump_filter_chunks]
  cases loops : filter.turns with
  | zero => rfl
  | succ loops =>
      have failed := silent.resolve_left (by omega)
      simp [dumpChunks, dumpChunk, failed]

theorem aborts_read (arch : EbpfArch) (filterCount : Nat) (filter : AttachedFilter Code)
    (aborts : filter.Aborts) (rest : List (PidEvent Code)) (reader : PidReader Code) :
    readEvents (dumpFilter arch filterCount filter ++ rest) reader = readEvents rest .initial := by
  rw [dump_filter_chunks]
  cases loops : filter.turns with
  | zero => exact absurd loops aborts.1
  | succ loops => simp [dumpChunks, dumpChunk, aborts.2, readEvents, onPidEvents]

theorem read_filters_resynchronised (arch : EbpfArch) (filterCount : Nat)
    (last : List (PidEvent Code))
    (ending : ∀ reader : PidReader Code, readEvents last reader = some [])
    (filters : List (AttachedFilter Code)) (resync : Resynchronised filters)
    (reader : PidReader Code) (fresh : reader = .initial ∨ AbortsNext filters) :
    ∃ calls, readEvents (filters.flatMap (dumpFilter arch filterCount) ++ last) reader = some calls ∧
      (calls.map DisasmCall.insns).Sublist (filters.map fun filter => filter.insns.map some) := by
  induction filters generalizing reader with
  | nil => exact ⟨[], ending reader, List.nil_sublist _⟩
  | cons filter rest ih =>
      have later : Resynchronised rest := by
        intro before cut after same isCut
        exact resync (filter :: before) cut after (by rw [same, List.cons_append]) isCut
      rw [List.flatMap_cons, List.append_assoc, List.map_cons]
      -- the reader is fresh, or an abort comes before anything it could misread
      rcases fresh with rfl | next
      · obtain ⟨own, left, whole, state, same⟩ := read_filter arch filterCount filter
          (rest.flatMap (dumpFilter arch filterCount) ++ last)
        obtain ⟨calls, run, sub⟩ := ih later left (by
          rcases state with initial | cut
          · exact Or.inl initial
          · exact Or.inr (resync [] filter rest rfl cut))
        refine ⟨own ++ calls, by rw [same, run]; rfl, ?_⟩
        rw [List.map_append]
        exact whole.append sub
      -- while it waits, filters that send nothing change nothing
      · rcases next [] filter rest rfl (by simp) with silent | aborts
        · have ahead : AbortsNext rest := by
            intro between other after same quiet
            refine next (filter :: between) other after (by rw [same, List.cons_append]) ?_
            intro one member
            rcases List.mem_cons.mp member with rfl | there
            · exact silent
            · exact quiet one there
          obtain ⟨calls, run, sub⟩ := ih later reader (Or.inr ahead)
          rw [silent_dump arch filterCount filter silent, List.nil_append]
          exact ⟨calls, run, sub.cons _⟩
        · obtain ⟨calls, run, sub⟩ := ih later .initial (Or.inl rfl)
          rw [aborts_read arch filterCount filter aborts]
          exact ⟨calls, run, sub.cons _⟩

theorem read_last (target : CaptureTarget Code) (status : PidEventStatus)
    (ending : status ∈ [.allDone, .truncated, .taskAborted, .pidNotFound])
    (reader : PidReader Code) : readEvents (target.last status) reader = some [] := by
  simp only [List.mem_cons, List.not_mem_nil, or_false] at ending
  unfold CaptureTarget.last
  split
  · rcases ending with rfl | rfl | rfl | rfl <;> rfl
  · rfl

/-- Whatever else fails, as long as no program is cut in front of another one that is
sent, each program reaches the disassembler once and in full, or not at all, and no
copy leaves its buffer. -/
theorem captured_in_full (target : CaptureTarget Code)
    (resync : Resynchronised (visited 32 target.filters)) :
    ∃ calls, readEvents target.events .initial = some calls ∧
      (calls.map DisasmCall.insns).Sublist
        (target.filters.map fun filter => filter.insns.map some) := by
  unfold CaptureTarget.events
  split
  · exact ⟨[], read_last target _ (by simp) _, List.nil_sublist _⟩
  · split
    · next filterCount arch _ _ _ =>
        have ending := dump_filters_status arch filterCount 32 target.filters
        obtain ⟨calls, run, sub⟩ := read_filters_resynchronised arch filterCount
          (target.last (dumpFilters arch filterCount 32 target.filters).2)
          (read_last target _ (by
            simp only [List.mem_cons, List.not_mem_nil, or_false] at ending ⊢
            rcases ending with same | same | same <;> simp [same]))
          (visited 32 target.filters) resync .initial (Or.inl rfl)
        rw [← dump_filters_events] at run
        exact ⟨calls, run, sub.trans ((visited_sublist 32 target.filters).map _)⟩
    · exact ⟨[], read_last target _ (by simp) _, List.nil_sublist _⟩

end Capture

/-- A program of two chunks, the second of which finds no room. -/
def lostChunk (insns : List Nat) (size : insns.length = 4097) : AttachedFilter Nat :=
  { insns, short := by omega, progRead := true, lenRead := true
    chunks := fun i => if i = 1 then .reserve else .none
    prevRead := true }

/-- A program of one chunk that nothing happens to. -/
def oneChunk (insns : List Nat) (small : insns.length ≤ chunkInsnSize) : AttachedFilter Nat :=
  { insns
    short := by
      simp only [chunkInsnSize] at small
      omega
    progRead := true, lenRead := true, chunks := fun _ => .none, prevRead := true }

def twoFilters (first second : AttachedFilter Nat) : CaptureTarget Nat :=
  { found := true, filterRead := true, filterCount := some 2, arch := some .x64
    filters := [first, second], endReserve := true }

def abortedAtOnce (insns : List Nat) (small : insns.length ≤ chunkInsnSize) : AttachedFilter Nat :=
  { oneChunk insns small with chunks := fun _ => .read }

theorem aborts_next_of (filter : AttachedFilter Nat) (rest : List (AttachedFilter Nat))
    (aborts : filter.Aborts) : AbortsNext (filter :: rest) := by
  intro between later after same silent
  cases between with
  | nil =>
      cases same
      exact Or.inr aborts
  | cons first between =>
      cases same
      rcases silent filter List.mem_cons_self with none_ | failed
      · exact absurd none_ aborts.1
      · rw [aborts.2] at failed
        cases failed

theorem resynchronised_cons (filter : AttachedFilter Nat) (rest : List (AttachedFilter Nat))
    (next : filter.Cut → AbortsNext rest) (others : Resynchronised rest) :
    Resynchronised (filter :: rest) := by
  intro before cut after same isCut
  cases before with
  | nil =>
      cases same
      exact next isCut
  | cons first before =>
      cases same
      exact others before cut after rfl isCut

theorem never_cut (filter : AttachedFilter Nat) (reserved : ∀ j, filter.chunks j ≠ .reserve) :
    ¬ filter.Cut := fun ⟨j, _, _, failed, _⟩ => reserved j failed

/-- Four programs: one of two chunks, the same cut behind the first, one that is aborted at
once, and a small one. -/
def fourFilters : CaptureTarget Nat :=
  { found := true, filterRead := true, filterCount := some 4, arch := some .x64
    filters :=
      [{ lostChunk (List.replicate 4097 0) List.length_replicate with chunks := fun _ => .none },
        lostChunk (List.replicate 4097 0) List.length_replicate,
        abortedAtOnce [1, 2] (by decide), oneChunk [3] (by decide)]
    endReserve := true }

theorem captured_in_full_cut :
    ∃ calls, readEvents fourFilters.events .initial = some calls ∧
      (calls.map DisasmCall.insns).Sublist
        (fourFilters.filters.map fun filter => filter.insns.map some) := by
  apply captured_in_full fourFilters
  have aborts : (abortedAtOnce [1, 2] (by decide)).Aborts := ⟨by decide, rfl⟩
  apply resynchronised_cons
  · exact fun cut => absurd cut (never_cut _ fun _ => nofun)
  · apply resynchronised_cons
    · exact fun _ => aborts_next_of _ _ aborts
    · apply resynchronised_cons
      · exact fun cut => absurd cut (never_cut _ fun _ => nofun)
      · apply resynchronised_cons
        · exact fun cut => absurd cut (never_cut _ fun _ => nofun)
        · intro before cut after same
          cases before <;> cases same

theorem lost_chunk_read (insns : List Nat) (size : insns.length = 4097)
    (rest : List (PidEvent Nat)) :
    readEvents (dumpFilter .x64 2 (lostChunk insns size) ++ rest) .initial =
      readEvents rest (.holding insns 1) := by
  have first := dump_chunk_event .x64 2 insns 0 (by omega) (by omega)
  have taken := read_chunk insns 0 .x64 2 (by omega)
  have more : ¬ insns.length ≤ (0 + 1) * chunkInsnSize := by
    simp only [chunkInsnSize]
    omega
  have loops : (lostChunk insns size).turns = 2 := by
    simp only [AttachedFilter.turns, loopTimes, lostChunk, chunkInsnSize, size, Bool.and_self, if_true]
  rw [if_neg more] at first taken
  have dropped : dumpChunk .x64 2 insns .reserve 1 = (none, false) := rfl
  rw [dump_filter_chunks, loops]
  rw [if_neg more] at taken
  simp only [dumpChunks, lostChunk, Nat.zero_ne_one, if_false, first, Option.toList_some, if_true,
    dropped, Option.toList_none, Bool.false_eq_true, List.append_nil, List.cons_append,
    List.nil_append]
  rw [show PidReader.initial = PidReader.holding insns 0 from rfl, read_events_next _ _ _ _ _ taken]
  simp

theorem one_chunk_dump (insns : List Nat) (small : insns.length ≤ chunkInsnSize)
    (some_ : 0 < insns.length) :
    dumpFilter .x64 2 (oneChunk insns small) =
      [{ status := .progDone, ebpfArch := .x64, flenTotal := insns.length, filterCount := 2
         flen := insns.length, filters := insns }] := by
  have only := dump_chunk_event .x64 2 insns 0 (oneChunk insns small).short (by omega)
  have whole : chunkAt insns 0 = insns := by
    rw [chunkAt, Nat.zero_mul, List.drop_zero, List.take_of_length_le small]
  have loops : (oneChunk insns small).turns = 1 := by
    simp only [chunkInsnSize] at small
    simp only [AttachedFilter.turns, loopTimes, oneChunk, chunkInsnSize, Bool.and_self, if_true]
    omega
  rw [whole, if_pos (by omega)] at only
  rw [dump_filter_chunks, loops]
  simp only [dumpChunks, oneChunk, only, Option.toList_some, if_true, List.append_nil]

theorem read_behind (front back : List (Option Nat)) (insns : List Nat) (arch : EbpfArch)
    (filterCount : Nat) :
    onPidEvents
        { status := .progDone, ebpfArch := arch, flenTotal := insns.length, filterCount
          flen := insns.length, filters := insns }
        { insnOffset := front.length, ebpfInsns := some (front ++ back) } =
      if insns.length > back.length then .overrun
      else .next .initial (some { arch, insns := (front ++ insns.map some).take insns.length }) := by
  have beyond : front.length + insns.length > (front ++ back).length ↔
      insns.length > back.length := by
    rw [List.length_append]
    omega
  have held : insns.length ≤ (front ++ insns.map some ++
      (front ++ back).drop (front.length + insns.length)).length := by
    simp only [List.length_append, List.length_map]
    omega
  have start : (front ++ insns.map some ++ (front ++ back).drop (front.length + insns.length)).take
      insns.length = (front ++ insns.map some).take insns.length := by
    apply List.take_append_of_le_length
    simp only [List.length_append, List.length_map]
    omega
  simp only [onPidEvents, Option.getD_some, beyond, List.take_left, List.take_length, reduceCtorEq,
    if_false, start, Nat.not_lt.mpr held]

theorem two_filters_read (first second : List Nat) (size : first.length = 4097)
    (small : second.length ≤ chunkInsnSize) (some_ : 0 < second.length) :
    readEvents (twoFilters (lostChunk first size) (oneChunk second small)).events .initial =
      if second.length > 1 then none
      else some [{ arch := .x64, insns := (first.take second.length).map some }] := by
  have events : (twoFilters (lostChunk first size) (oneChunk second small)).events =
      dumpFilter .x64 2 (lostChunk first size) ++
        (dumpFilter .x64 2 (oneChunk second small) ++
          (twoFilters (lostChunk first size) (oneChunk second small)).last .allDone) := by
    simp [CaptureTarget.events, twoFilters, dumpFilters, lostChunk, oneChunk]
  have front : ((first.take chunkInsnSize).map some).length = chunkInsnSize := by
    simp only [List.length_map, List.length_take, chunkInsnSize]
    omega
  have taken := read_behind ((first.take chunkInsnSize).map some) (List.replicate 1 none) second
    .x64 2
  rw [front, List.length_replicate] at taken
  have holding : PidReader.holding first 1 =
      { insnOffset := chunkInsnSize
        ebpfInsns := some ((first.take chunkInsnSize).map some ++ List.replicate 1 none) } := by
    simp [PidReader.holding, size, chunkInsnSize]
  rw [events, lost_chunk_read, one_chunk_dump second small some_, List.singleton_append, holding]
  split
  · next beyond =>
      rw [if_pos beyond] at taken
      rw [readEvents, taken]
  · next fits =>
      rw [if_neg fits] at taken
      rw [read_events_next _ _ _ _ _ taken, read_last _ _ (by simp),
        List.take_append_of_le_length (by omega), ← List.map_take, List.take_take,
        Nat.min_eq_left small]
      rfl

/-- The rest of a program that was cut stays with the reader: the next program is
written behind it, out of the buffer, or handed on with the wrong instructions. -/
theorem lost_chunk_mixes_programs :
    readEvents (twoFilters (lostChunk (List.replicate 4097 0) List.length_replicate)
        (oneChunk [1, 2] (by decide))).events .initial = none ∧
      (readEvents (twoFilters (lostChunk (List.replicate 4097 0) List.length_replicate)
        (oneChunk [1] (by decide))).events .initial).map
        (fun calls => calls.map DisasmCall.insns) = some [[some 0]] := by
  rw [two_filters_read _ _ _ _ (by decide), two_filters_read _ _ _ _ (by decide)]
  exact ⟨rfl, by rw [List.take_replicate]; rfl⟩

end Ceccomp
