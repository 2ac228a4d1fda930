import Ceccomp.Capture.Share

/-!
`capture.bpf.c`: the program at the entry of `seccomp_check_filter` stores the
filter of the calling thread in `unverified_filters`, the one at the exit of
`do_seccomp` takes it out again and sends it to user space.
-/

namespace Ceccomp

/-- `global_event` -/
structure GlobalEvent where
  ebpfArch : EbpfArch
  comm : List Char
  op : Nat
  pid : Pid
  prog : EbpfProg
  deriving DecidableEq, Repr

def sockFilterSize : Nat := 8

/-- What can go wrong at the entry hook: the update of the map and the copy. -/
structure CheckFaults where
  update : Bool
  read : Bool
  deriving DecidableEq, Repr

/-- `bpf_core_read` of so many bytes of `insns` into `filters`. -/
def readFilters (filters insns : List Filter) (readSize : Nat) : List Filter :=
  insns.take (readSize / sockFilterSize) ++ filters.drop (readSize / sockFilterSize)

/-- `seccomp_check_filter_entry`; the `flen` filters start at `filter`. -/
def seccompCheckFilterEntry (pid : Pid) (filter : List Filter) (flen : Nat) (faults : CheckFaults)
    (unverifiedFilters : FilterMap) : FilterMap :=
  let tmp := EbpfProg.zero
  match if faults.update then none else unverifiedFilters.update pid tmp with
  | none => unverifiedFilters
  | some stored =>
      match stored.lookup pid with
      | none => stored
      | some unverified =>
          let unverified := { unverified with flen := flen % 2 ^ 16 }
          let readSize := flen * sockFilterSize % 2 ^ 16
          if readSize > bpfMaxInsns * sockFilterSize then stored.write pid unverified
          else if faults.read then (stored.write pid unverified).delete pid
          else
            stored.write pid
              { unverified with filters := readFilters unverified.filters filter readSize }

/-- What the exit hook reads or asks for; `none` and `false` where that fails. -/
structure ExitReads where
  reserve : Bool
  arch : Option EbpfArch
  comm : Option (List Char)
  prog : Bool
  deriving DecidableEq, Repr

/-- `filter_mode`: the map afterwards and the event, if it is submitted. -/
def filterMode (ret : Int) (flags : Word) (pid : Pid) (prog : EbpfProg) (reads : ExitReads)
    (unverifiedFilters : FilterMap) : FilterMap × Option GlobalEvent :=
  let failed := (unverifiedFilters.delete pid, none)
  if !loadSuccess ret flags then failed
  else
    match reads.arch, reads.comm with
    | some ebpfArch, some comm =>
        if reads.prog then
          (unverifiedFilters.delete pid,
            some { ebpfArch, comm, op := seccompSetModeFilter, pid, prog })
        else failed
    | _, _ => failed

def strictMode (ret : Int) (pid : Pid) : Option GlobalEvent :=
  if ret ≠ 0 then none
  else some { ebpfArch := .x64, comm := [], op := seccompSetModeStrict, pid, prog := .zero }

def seccompRet (pid : Pid) (op : Nat) (flags : Word) (ret : Int) (reads : ExitReads)
    (unverifiedFilters : FilterMap) : FilterMap × Option GlobalEvent :=
  if op = seccompGetActionAvail ∨ op = seccompGetNotifSizes then (unverifiedFilters, none)
  else if op ≠ seccompSetModeStrict ∧ op ≠ seccompSetModeFilter then (unverifiedFilters, none)
  else
    let prog := unverifiedFilters.lookup pid
    if !reads.reserve then
      (if prog.isSome then unverifiedFilters.delete pid else unverifiedFilters, none)
    else if op = seccompSetModeStrict then (unverifiedFilters, strictMode ret pid)
    else
      match prog with
      | some prog => filterMode ret flags pid prog reads unverifiedFilters
      | none => (unverifiedFilters, none)

/-- Where a thread is: outside `do_seccomp`, or in a call of it, with the filter it
passed to `seccomp_check_filter` in this call, if it got there. -/
inductive SeccompCall where
  | outside
  | inside (op : Nat) (flags : Word) (checked : Option (List Filter))
  deriving DecidableEq, Repr

/-- A submitted event with the call that was current, and what it returned. -/
structure Submission where
  event : GlobalEvent
  pid : Pid
  call : SeccompCall
  ret : Int
  deriving DecidableEq, Repr

structure CaptureWorld where
  calls : Pid → SeccompCall
  unverifiedFilters : FilterMap
  submitted : List Submission

def CaptureWorld.initial : CaptureWorld :=
  { calls := fun _ => .outside, unverifiedFilters := .empty, submitted := [] }

/-- The kernel calls `seccomp_check_filter` at most once in a call, when a filter is
set, and after it has checked its length. -/
inductive CaptureStep : CaptureWorld → CaptureWorld → Prop where
  | enter (world : CaptureWorld) (pid : Pid) (op : Nat) (flags : Word)
      (outside : world.calls pid = .outside) :
      CaptureStep world
        { world with calls := Function.update world.calls pid (.inside op flags none) }
  | check (world : CaptureWorld) (pid : Pid) (flags : Word) (insns : List Filter)
      (faults : CheckFaults)
      (inside : world.calls pid = .inside seccompSetModeFilter flags none)
      (few : insns.length ≤ bpfMaxInsns) :
      CaptureStep world
        { world with
          calls :=
            Function.update world.calls pid (.inside seccompSetModeFilter flags (some insns))
          unverifiedFilters :=
            seccompCheckFilterEntry pid insns insns.length faults world.unverifiedFilters }
  | leave (world : CaptureWorld) (pid : Pid) (op : Nat) (flags : Word)
      (checked : Option (List Filter)) (ret : Int) (reads : ExitReads)
      (inside : world.calls pid = .inside op flags checked) :
      CaptureStep world
        { calls := Function.update world.calls pid .outside
          unverifiedFilters := (seccompRet pid op flags ret reads world.unverifiedFilters).1
          submitted :=
            match (seccompRet pid op flags ret reads world.unverifiedFilters).2 with
            | some event =>
                world.submitted ++ [{ event, pid, call := .inside op flags checked, ret }]
            | none => world.submitted }

inductive CaptureReachable : CaptureWorld → Prop where
  | start : CaptureReachable .initial
  | next {world after : CaptureWorld} (reached : CaptureReachable world)
      (step : CaptureStep world after) : CaptureReachable after

/-- What the map may hold for a thread: the filter of its current call. -/
def SeccompCall.Holds (call : SeccompCall) (prog : EbpfProg) : Prop :=
  ∃ flags insns, call = .inside seccompSetModeFilter flags (some insns) ∧
    prog.flen = insns.length ∧ prog.filters.take prog.flen = insns

/-- Every entry of the map belongs to the current call of its thread. -/
def CaptureWorld.Paired (world : CaptureWorld) : Prop :=
  ∀ pid prog, world.unverifiedFilters.lookup pid = some prog → (world.calls pid).Holds prog

/-- The event is the filter of the call it was submitted in, and the load succeeded. -/
structure Submission.Faithful (submission : Submission) : Prop where
  pid : submission.event.pid = submission.pid
  holds : submission.call.Holds submission.event.prog
  loaded : ∃ flags checked, submission.call = .inside seccompSetModeFilter flags checked ∧
    loadSuccess submission.ret flags = true

theorem read_filters_take (filters insns : List Filter) :
    (readFilters filters insns (insns.length * sockFilterSize)).take insns.length = insns := by
  have whole : insns.length * sockFilterSize / sockFilterSize = insns.length :=
    Nat.mul_div_cancel _ (by decide)
  rw [readFilters, whole, List.take_length]
  exact List.take_left

theorem check_entry_other (pid other : Pid) (filter : List Filter) (flen : Nat)
    (faults : CheckFaults) (map : FilterMap) (different : other ≠ pid) :
    (seccompCheckFilterEntry pid filter flen faults map).lookup other = map.lookup other := by
  unfold seccompCheckFilterEntry
  dsimp only
  split
  · rfl
  · next stored updated =>
      have kept : stored.lookup other = map.lookup other := by
        split at updated
        · cases updated
        · exact FilterMap.lookup_update_other map stored pid other _ updated different
      split
      · exact kept
      · split_ifs
        · rw [FilterMap.lookup_write_other _ _ _ _ different, kept]
        · rw [FilterMap.lookup_delete_other _ _ _ different,
            FilterMap.lookup_write_other _ _ _ _ different, kept]
        · rw [FilterMap.lookup_write_other _ _ _ _ different, kept]

/-- What the entry hook leaves for the calling thread is the filter it was called with. -/
theorem check_entry_own (pid : Pid) (insns : List Filter) (faults : CheckFaults) (map : FilterMap)
    (few : insns.length ≤ bpfMaxInsns) (absent : map.lookup pid = none) (prog : EbpfProg)
    (found : (seccompCheckFilterEntry pid insns insns.length faults map).lookup pid = some prog) :
    prog.flen = insns.length ∧ prog.filters.take prog.flen = insns := by
  have fits : insns.length * sockFilterSize % 2 ^ 16 = insns.length * sockFilterSize := by
    simp only [bpfMaxInsns, sockFilterSize] at few ⊢
    omega
  have inside : ¬ insns.length * sockFilterSize > bpfMaxInsns * sockFilterSize := by
    simp only [sockFilterSize]
    omega
  have width : insns.length % 2 ^ 16 = insns.length := by
    simp only [bpfMaxInsns] at few
    omega
  unfold seccompCheckFilterEntry at found
  simp only [fits, width, inside, if_false] at found
  split at found
  · rw [absent] at found
    cases found
  · next stored updated =>
      have own : stored.lookup pid = some .zero := by
        split at updated
        · cases updated
        · exact FilterMap.lookup_update map stored pid _ updated
      rw [own] at found
      dsimp only at found
      split at found
      · rw [FilterMap.lookup_delete] at found
        cases found
      · rw [FilterMap.lookup_write _ _ _ _ own, Option.some.injEq] at found
        subst found
        exact ⟨rfl, read_filters_take _ _⟩

theorem filter_mode_map (ret : Int) (flags : Word) (pid : Pid) (prog : EbpfProg)
    (reads : ExitReads) (map : FilterMap) :
    (filterMode ret flags pid prog reads map).1 = map.delete pid := by
  unfold filterMode
  dsimp only
  split
  · rfl
  · split
    · split <;> rfl
    · rfl

theorem filter_mode_event (ret : Int) (flags : Word) (pid : Pid) (prog : EbpfProg)
    (reads : ExitReads) (map : FilterMap) (event : GlobalEvent)
    (submitted : (filterMode ret flags pid prog reads map).2 = some event) :
    event.pid = pid ∧ event.prog = prog ∧ loadSuccess ret flags = true := by
  unfold filterMode at submitted
  dsimp only at submitted
  split at submitted
  · cases submitted
  · next loaded =>
      split at submitted
      · split at submitted
        · cases submitted
          exact ⟨rfl, rfl, by simpa using loaded⟩
        · cases submitted
      · cases submitted

inductive RetCases (pid : Pid) (op : Nat) (flags : Word) (ret : Int) (reads : ExitReads)
    (map : FilterMap) : FilterMap × Option GlobalEvent → Prop where
  | ignored (other : op ≠ seccompSetModeFilter) : RetCases pid op flags ret reads map (map, none)
  | absent (none_ : map.lookup pid = none) : RetCases pid op flags ret reads map (map, none)
  | dropped : RetCases pid op flags ret reads map (map.delete pid, none)
  | strict (other : op = seccompSetModeStrict) :
      RetCases pid op flags ret reads map (map, strictMode ret pid)
  | filter (mode : op = seccompSetModeFilter) (prog : EbpfProg)
      (stored : map.lookup pid = some prog) :
      RetCases pid op flags ret reads map (filterMode ret flags pid prog reads map)

theorem seccomp_ret_cases (pid : Pid) (op : Nat) (flags : Word) (ret : Int) (reads : ExitReads)
    (map : FilterMap) :
    RetCases pid op flags ret reads map (seccompRet pid op flags ret reads map) := by
  unfold seccompRet
  dsimp only
  split
  · next query =>
      apply RetCases.ignored
      rintro rfl
      simp [seccompSetModeFilter, seccompGetActionAvail, seccompGetNotifSizes] at query
  · split
    · next other => exact .ignored other.2
    · next mode =>
        split
        · cases stored : map.lookup pid with
          | none => exact .absent stored
          | some prog => exact .dropped
        · split
          · next strict => exact .strict strict
          · next notStrict =>
              split
              · next prog stored =>
                  apply RetCases.filter _ prog stored
                  by_contra other
                  exact mode ⟨notStrict, other⟩
              · next stored => exact .absent stored

theorem seccomp_ret_other (pid other : Pid) (op : Nat) (flags : Word) (ret : Int)
    (reads : ExitReads) (map : FilterMap) (different : other ≠ pid) :
    (seccompRet pid op flags ret reads map).1.lookup other = map.lookup other := by
  have deleted := FilterMap.lookup_delete_other map pid other different
  have how := seccomp_ret_cases pid op flags ret reads map
  generalize seccompRet pid op flags ret reads map = outcome at how ⊢
  cases how with
  | ignored | absent | strict => rfl
  | dropped => exact deleted
  | filter mode prog stored =>
      rw [filter_mode_map]
      exact deleted

/-- Behind the exit hook the thread has no entry, unless it had one in a call that
did not set a filter. -/
theorem seccomp_ret_own (pid : Pid) (op : Nat) (flags : Word) (ret : Int) (reads : ExitReads)
    (map : FilterMap) (stored : op ≠ seccompSetModeFilter → map.lookup pid = none) :
    (seccompRet pid op flags ret reads map).1.lookup pid = none := by
  have how := seccomp_ret_cases pid op flags ret reads map
  generalize seccompRet pid op flags ret reads map = outcome at how ⊢
  cases how with
  | ignored other => exact stored other
  | absent none_ => exact none_
  | dropped => exact FilterMap.lookup_delete map pid
  | strict other =>
      apply stored
      rw [other]
      decide
  | filter mode prog found =>
      rw [filter_mode_map]
      exact FilterMap.lookup_delete map pid

theorem seccomp_ret_event (pid : Pid) (op : Nat) (flags : Word) (ret : Int) (reads : ExitReads)
    (map : FilterMap) (event : GlobalEvent)
    (submitted : (seccompRet pid op flags ret reads map).2 = some event)
    (filter : event.op = seccompSetModeFilter) :
    op = seccompSetModeFilter ∧ event.pid = pid ∧ map.lookup pid = some event.prog ∧
      loadSuccess ret flags = true := by
  have how := seccomp_ret_cases pid op flags ret reads map
  generalize seccompRet pid op flags ret reads map = outcome at how submitted
  cases how with
  | ignored | absent | dropped => cases submitted
  | strict other =>
      unfold strictMode at submitted
      split at submitted
      · cases submitted
      · cases submitted
        cases filter
  | filter mode prog stored =>
      obtain ⟨same, carried, loaded⟩ :=
        filter_mode_event ret flags pid prog reads map event submitted
      exact ⟨mode, same, carried ▸ stored, loaded⟩

theorem paired_step (world after : CaptureWorld) (paired : world.Paired)
    (step : CaptureStep world after) : after.Paired := by
  intro pid prog found
  cases step with
  | enter caller op flags outside =>
      -- only the entry of the thread that moved can change
      by_cases same : pid = caller
      · subst same
        obtain ⟨_, _, inside, _⟩ := paired pid prog found
        rw [outside] at inside
        cases inside
      · simpa [same] using paired pid prog found
  | check caller flags insns faults inside few =>
      by_cases same : pid = caller
      -- the thread was outside, so its entry is the one of this call
      · subst same
        have absent : world.unverifiedFilters.lookup pid = none := by
          cases held : world.unverifiedFilters.lookup pid with
          | none => rfl
          | some old =>
              obtain ⟨_, _, other, _⟩ := paired pid old held
              rw [inside] at other
              cases other
        have own := check_entry_own pid insns faults world.unverifiedFilters few absent prog found
        exact ⟨flags, insns, by simp, own⟩
      · have kept := check_entry_other caller pid insns insns.length faults
          world.unverifiedFilters same
        simpa [same] using paired pid prog (kept ▸ found)
  | leave caller op flags checked ret reads inside =>
      by_cases same : pid = caller
      · subst same
        have gone := seccomp_ret_own pid op flags ret reads world.unverifiedFilters fun other => by
          cases held : world.unverifiedFilters.lookup pid with
          | none => rfl
          | some old =>
              obtain ⟨_, _, filter, _⟩ := paired pid old held
              rw [inside] at filter
              cases filter
              exact absurd rfl other
        rw [gone] at found
        cases found
      · have kept := seccomp_ret_other caller pid op flags ret reads world.unverifiedFilters same
        simpa [same] using paired pid prog (kept ▸ found)

theorem submitted_step (world after : CaptureWorld) (paired : world.Paired)
    (step : CaptureStep world after) (submission : Submission)
    (member : submission ∈ after.submitted)
    (filter : submission.event.op = seccompSetModeFilter) :
    submission ∈ world.submitted ∨ submission.Faithful := by
  cases step with
  | enter | check => exact Or.inl member
  | leave pid op flags checked ret reads inside =>
      dsimp only at member
      split at member
      · next event submitted =>
          rcases List.mem_append.mp member with old | new
          · exact Or.inl old
          · rw [List.mem_singleton] at new
            subst new
            obtain ⟨rfl, same, stored, loaded⟩ :=
              seccomp_ret_event pid op flags ret reads _ event submitted filter
            have holds := paired pid event.prog stored
            rw [inside] at holds
            exact Or.inr { pid := same, holds, loaded := ⟨flags, checked, rfl, loaded⟩ }
      · exact Or.inl member

theorem paired_initial : CaptureWorld.initial.Paired := by
  intro pid prog found
  cases found

theorem reachable_paired (world : CaptureWorld) (reached : CaptureReachable world) :
    world.Paired ∧ ∀ submission ∈ world.submitted,
      submission.event.op = seccompSetModeFilter → submission.Faithful := by
  induction reached with
  | start => exact ⟨paired_initial, by simp [CaptureWorld.initial]⟩
  | next reached step ih =>
      refine ⟨paired_step _ _ ih.1 step, fun submission member filter => ?_⟩
      rcases submitted_step _ _ ih.1 step submission member filter with old | faithful
      · exact ih.2 submission old filter
      · exact faithful

/-- Whatever the threads do and whatever fails, each submitted filter is the one its
thread passed in that call, of a load that succeeded, and the map holds nothing for a
thread outside a call. -/
theorem capture_pairs_calls (world : CaptureWorld) (reached : CaptureReachable world) :
    (∀ submission ∈ world.submitted, submission.event.op = seccompSetModeFilter →
      submission.Faithful) ∧
    ∀ pid, world.calls pid = .outside → world.unverifiedFilters.lookup pid = none := by
  obtain ⟨paired, faithful⟩ := reachable_paired world reached
  refine ⟨faithful, fun pid outside => ?_⟩
  cases held : world.unverifiedFilters.lookup pid with
  | none => rfl
  | some prog =>
      obtain ⟨_, _, inside, _⟩ := paired pid prog held
      rw [outside] at inside
      cases inside

/-- Two threads load filters at once. The copy fails for the second one, and so does the update
when it tries again, so that only the first load is submitted. -/
theorem capture_pairs_calls_two_threads : ∃ world, CaptureReachable world ∧
    world.submitted.map (fun submission => (submission.pid, submission.event.prog.flen)) = [(7, 1)] ∧
    (∀ submission ∈ world.submitted, submission.event.op = seccompSetModeFilter →
      submission.Faithful) ∧
    ∀ pid, world.calls pid = .outside → world.unverifiedFilters.lookup pid = none := by
  have first := CaptureReachable.next .start
    (.enter .initial 7 seccompSetModeFilter 0 rfl)
  have second := first.next (.enter _ 8 seccompSetModeFilter 0 rfl)
  have notCopied := second.next
    (.check _ 8 0 [{ code := 0x06, jt := 0, jf := 0, k := 0 }, { code := 0x06, jt := 0, jf := 0, k := 1 }]
      { update := false, read := true } rfl (by decide))
  have copied := notCopied.next
    (.check _ 7 0 [{ code := 0x06, jt := 0, jf := 0, k := 0x7fff0000 }]
      { update := false, read := false } rfl (by decide))
  have nothing := copied.next
    (.leave _ 8 seccompSetModeFilter 0 _ 0
      { reserve := true, arch := some .x64, comm := some [], prog := true } rfl)
  have again := nothing.next (.enter _ 8 seccompSetModeFilter 0 rfl)
  have full := again.next
    (.check _ 8 0 [{ code := 0x06, jt := 0, jf := 0, k := 0 }]
      { update := true, read := false } rfl (by decide))
  have loaded := full.next
    (.leave _ 7 seccompSetModeFilter 0 _ 0
      { reserve := true, arch := some .x64, comm := some [], prog := true } rfl)
  have left := loaded.next
    (.leave _ 8 seccompSetModeFilter 0 _ 0
      { reserve := true, arch := some .x64, comm := some [], prog := true } rfl)
  exact ⟨_, left, by rfl, capture_pairs_calls _ left⟩

end Ceccomp
