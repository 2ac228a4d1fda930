import Mathlib.Data.List.AList
import Ceccomp.Bpf.Filter

/-!
`ebpf_share.h`: what the two capture programs in the kernel and `capture.c` agree
on, and the bounded hash map that the global one keeps its state in.
-/

namespace Ceccomp

/-- `ebpf_arch` -/
inductive EbpfArch where
  | x64 | x86 | arm | aarch64 | others
  deriving DecidableEq, Repr

/-- `ebpf_prog`; `flen` is 16 bits wide and `filters` has room for `BPF_MAXINSNS`. -/
structure EbpfProg where
  flen : Nat
  filters : List Filter
  deriving DecidableEq, Repr

/-- What the kernel fills the values of an array map with. -/
def EbpfProg.zero : EbpfProg :=
  { flen := 0, filters := List.replicate bpfMaxInsns { code := 0, jt := 0, jf := 0, k := 0 } }

inductive PidEventStatus where
  | chunkDone | progDone | progAborted | truncated | taskAborted | allDone | pidNotFound
  deriving DecidableEq, Repr

def seccompSetModeStrict : Nat := 0
def seccompSetModeFilter : Nat := 1
def seccompGetActionAvail : Nat := 2
def seccompGetNotifSizes : Nat := 3

def seccompFilterFlagTsync : Word := 1
def seccompFilterFlagNewListener : Word := 8
def seccompFilterFlagTsyncEsrch : Word := 16

def loadSuccess (ret : Int) (flags : Word) : Bool :=
  if ret < 0 then false
  else if ret = 0 then true
  else if flags &&& seccompFilterFlagNewListener = 0 then false
  else if flags &&& seccompFilterFlagTsync = 0 then true
  else decide (flags &&& seccompFilterFlagTsyncEsrch ≠ 0)

abbrev Pid := Nat

def unverifiedEntries : Nat := 16

/-- `unverified_filters`: a hash map with at most `max_entries` entries. -/
structure FilterMap where
  entries : AList fun _ : Pid => EbpfProg
  bounded : entries.keys.length ≤ unverifiedEntries

namespace FilterMap

def empty : FilterMap := ⟨∅, Nat.zero_le _⟩

def lookup (map : FilterMap) (pid : Pid) : Option EbpfProg := map.entries.lookup pid

theorem insert_bounded (entries : AList fun _ : Pid => EbpfProg) (pid : Pid) (prog : EbpfProg)
    (bounded : entries.keys.length ≤ unverifiedEntries)
    (room : pid ∈ entries ∨ entries.keys.length < unverifiedEntries) :
    (entries.insert pid prog).keys.length ≤ unverifiedEntries := by
  rw [AList.keys_insert, List.length_cons]
  by_cases present : pid ∈ entries.keys
  · rw [List.length_erase_of_mem present]
    have positive := List.length_pos_of_mem present
    omega
  · rw [List.erase_of_not_mem present]
    rcases room with member | room
    · exact absurd (AList.mem_keys.mp member) present
    · omega

/-- `bpf_map_update_elem` with `BPF_ANY`, which needs room for a new key. -/
def update (map : FilterMap) (pid : Pid) (prog : EbpfProg) : Option FilterMap :=
  if room : pid ∈ map.entries ∨ map.entries.keys.length < unverifiedEntries then
    some ⟨map.entries.insert pid prog, insert_bounded _ _ _ map.bounded room⟩
  else none

def delete (map : FilterMap) (pid : Pid) : FilterMap :=
  ⟨map.entries.erase pid, by
    rw [AList.keys_erase]
    exact Nat.le_trans List.length_erase_le map.bounded⟩

@[simp] theorem lookup_empty (pid : Pid) : empty.lookup pid = none := rfl

@[simp] theorem lookup_delete (map : FilterMap) (pid : Pid) : (map.delete pid).lookup pid = none :=
  AList.lookup_erase pid map.entries

theorem lookup_delete_other (map : FilterMap) (pid other : Pid) (different : other ≠ pid) :
    (map.delete pid).lookup other = map.lookup other :=
  AList.lookup_erase_ne different

theorem lookup_update (map updated : FilterMap) (pid : Pid) (prog : EbpfProg)
    (done : map.update pid prog = some updated) : updated.lookup pid = some prog := by
  unfold update at done
  split at done
  · cases done
    exact AList.lookup_insert map.entries
  · cases done

theorem lookup_update_other (map updated : FilterMap) (pid other : Pid) (prog : EbpfProg)
    (done : map.update pid prog = some updated) (different : other ≠ pid) :
    updated.lookup other = map.lookup other := by
  unfold update at done
  split at done
  · cases done
    exact AList.lookup_insert_ne different
  · cases done

/-- Writing through the pointer that `bpf_map_lookup_elem` returned for a key. -/
def write (map : FilterMap) (pid : Pid) (prog : EbpfProg) : FilterMap :=
  (map.update pid prog).getD map

theorem lookup_write (map : FilterMap) (pid : Pid) (old prog : EbpfProg)
    (present : map.lookup pid = some old) : (map.write pid prog).lookup pid = some prog := by
  have member : pid ∈ map.entries := AList.lookup_isSome.mp (by
    rw [show map.entries.lookup pid = some old from present]
    rfl)
  rw [write, update, dif_pos (Or.inl member)]
  exact AList.lookup_insert map.entries

theorem lookup_write_other (map : FilterMap) (pid other : Pid) (prog : EbpfProg)
    (different : other ≠ pid) : (map.write pid prog).lookup other = map.lookup other := by
  unfold write
  cases done : map.update pid prog with
  | none => rfl
  | some updated => exact lookup_update_other map updated pid other prog done different

end FilterMap

end Ceccomp
