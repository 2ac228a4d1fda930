import Ceccomp.Text.Statement

/-!
`utils/arch_trans.c` with `x-macro/arch_table.h`, for a libseccomp that knows
every architecture of the table (2.6 on).
-/

namespace Ceccomp

def archTable : List (TokenType × Word) :=
  [(.archX86, 0x40000003), (.archX86_64, 0xC000003E), (.archX32, 0x4000003E),
    (.archAarch64, 0xC00000B7), (.archArm, 0x40000028), (.archLoongarch64, 0xC0000102),
    (.archM68k, 0x00000004), (.archSh, 0x4000002A), (.archSheb, 0x0000002A),
    (.archMipsel64n32, 0xE0000008), (.archMipsel64, 0xC0000008), (.archMipsel, 0x40000008),
    (.archMips64n32, 0xA0000008), (.archMips64, 0x80000008), (.archMips, 0x00000008),
    (.archParisc64, 0x8000000F), (.archParisc, 0x0000000F), (.archPpc64le, 0xC0000015),
    (.archPpc64, 0x80000015), (.archPpc, 0x00000014), (.archS390x, 0x80000016),
    (.archS390, 0x00000016), (.archRiscv64, 0xC00000F3)]

def archAliases : List (TokenType × Word) :=
  [(.archI686, 0x40000003), (.archArmv7l, 0x40000028), (.archArmv8l, 0x40000028),
    (.archSh4, 0x4000002A)]

/-- `internal_arch_to_scmp_arch`; -1 for what is no architecture token. -/
def internalArchToScmpArch (arch : TokenType) : Word :=
  match (archTable ++ archAliases).find? (fun row => row.1 = arch) with
  | some row => row.2
  | none => 0xFFFFFFFF

/-- `scmp_arch_to_internal_arch`; `none` stands for -1. -/
def scmpArchToInternalArch (scmpArch : Word) : Option TokenType :=
  (archTable.find? (fun row => row.2 = scmpArch)).map Prod.fst

def scmpArchToInternalStr (scmpArch : Word) : Option Text :=
  (scmpArchToInternalArch scmpArch).map TokenType.spelling

def archsTried (first : Char) : List TokenType :=
  match first with
  | 'i' => [.archX86, .archI686]
  | 'x' => [.archX86_64, .archX32]
  | 'a' => [.archAarch64, .archArmv8l, .archArmv7l, .archArm]
  | 'l' => [.archLoongarch64]
  | 'm' => [.archM68k, .archMipsel64n32, .archMipsel64, .archMipsel, .archMips64n32,
      .archMips64, .archMips]
  | 'p' => [.archParisc64, .archParisc, .archPpc64le, .archPpc64, .archPpc]
  | 's' => [.archS390x, .archS390, .archSh4, .archSheb, .archSh]
  | 'r' => [.archRiscv64]
  | _ => []

/-- `str_to_internal_arch` without `strict`: the first token that `str` starts with. -/
def strToInternalArch (str : Text) : TokenType :=
  match str with
  | [] => .unknown
  | first :: _ =>
      match (archsTried first).find? (fun arch => arch.spelling.isPrefixOf str) with
      | some arch => arch
      | none => .unknown

/-- The two functions of libseccomp that this code calls. A name is resolved to
-1 (`__NR_SCMP_ERROR`) when the architecture has no such system call. -/
structure Libseccomp where
  resolveNumArch : Word → Word → Option Text
  resolveNameArch : Word → Text → Word

/-- libseccomp names no number under an architecture missing from the table. The number 0
is exempt: it is `SCMP_ARCH_NATIVE`, which stands for the host, and `render` never asks for it. -/
def Libseccomp.KnowsArchs (lib : Libseccomp) : Prop :=
  ∀ arch number name, arch ≠ 0 → lib.resolveNumArch arch number = some name →
    ∃ internal, scmpArchToInternalArch arch = some internal

theorem internal_arch_row (scmpArch : Word) (arch : TokenType)
    (known : scmpArchToInternalArch scmpArch = some arch) : (arch, scmpArch) ∈ archTable := by
  obtain ⟨row, found, rfl⟩ := Option.map_eq_some_iff.mp known
  have member := List.mem_of_find?_eq_some found
  have same : row.2 = scmpArch := by simpa using List.find?_some found
  exact same ▸ member

theorem scmp_arch_round_trip (scmpArch : Word) (arch : TokenType)
    (known : scmpArchToInternalArch scmpArch = some arch) :
    internalArchToScmpArch arch = scmpArch := by
  have row := internal_arch_row scmpArch arch known
  simp only [archTable, List.mem_cons, Prod.mk.injEq, List.not_mem_nil, or_false] at row
  rcases row with ⟨rfl, rfl⟩ | ⟨rfl, rfl⟩ | ⟨rfl, rfl⟩ | ⟨rfl, rfl⟩ | ⟨rfl, rfl⟩ | ⟨rfl, rfl⟩ |
    ⟨rfl, rfl⟩ | ⟨rfl, rfl⟩ | ⟨rfl, rfl⟩ | ⟨rfl, rfl⟩ | ⟨rfl, rfl⟩ | ⟨rfl, rfl⟩ | ⟨rfl, rfl⟩ |
    ⟨rfl, rfl⟩ | ⟨rfl, rfl⟩ | ⟨rfl, rfl⟩ | ⟨rfl, rfl⟩ | ⟨rfl, rfl⟩ | ⟨rfl, rfl⟩ | ⟨rfl, rfl⟩ |
    ⟨rfl, rfl⟩ | ⟨rfl, rfl⟩ | ⟨rfl, rfl⟩ <;> rfl

/-- The numbers `render` uses for "unreached" and "conflicting" name no architecture. -/
theorem reserved_archs_unknown :
    scmpArchToInternalArch 0 = none ∧ scmpArchToInternalArch 3 = none := by
  decide

end Ceccomp
