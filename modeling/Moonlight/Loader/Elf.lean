/-
The ELF loader: `elf_is_valid` and `elf_load`.

The file is a byte string, and its size is the word that the caller passes beside it.
Every field is read from the bytes where the packed layout of `elf64_hdr_t` and
`elf64_phdr_t` puts it.  A read outside the file has no value in the model, so the outer
`Option` of both functions is `none` exactly when the code reads past its input.

The loader makes two bounds checks, on `phoff + phnum * 56` and on `paddr + memsz`, and
computes both sums in 64 bits.  `elfLoad_reads_inside` and `elfLoad_fits_iff` say what
each check is worth: all of it, when its sum does not wrap.
-/
import Moonlight.Kernel.Types
import Moonlight.Lib.Bytes

namespace Moonlight

open Bytes

def elfMagic : UInt32 := 0x464C457F

def elfClass64 : UInt8 := 2

def etExec : UInt16 := 2

def ptLoad : UInt32 := 1

/-- The address above which no segment may end. -/
def elfLoadLimit : UInt64 := 0x90000000

/-- `sizeof(elf64_hdr_t)`. -/
def ehdrSize : UInt64 := 64

/-- `sizeof(elf64_phdr_t)`. -/
def phdrSize : UInt64 := 56

def elfIsValid (data : List UInt8) (size : UInt64) : Option Bool :=
  if size < ehdrSize then some false
  else do
    let magic ← read32 data 0
    if magic ≠ elfMagic then return false
    else
      let cls ← read8 data 4
      if cls ≠ elfClass64 then return false
      else
        let type ← read16 data 16
        return type = etExec

/-- The fields of `elf64_phdr_t` that the loader reads. -/
structure ElfPhdr where
  type : UInt32
  vaddr : UInt64
  paddr : UInt64
  memsz : UInt64
  deriving DecidableEq, Repr

/-- The offset of `phdrs[i]` in the file. -/
def phdrOffset (phoff : UInt64) (i : Nat) : UInt64 := phoff + UInt64.ofNat i * phdrSize

/-- The loop over the headers `i` to `i + n`, with `first_vaddr` so far.  The address range
is checked after `first_vaddr` has been lowered, and a range above the limit ends the loop. -/
def elfLoadLoop (data : List UInt8) (phoff : UInt64) : Nat → Nat → UInt64 →
    Option (Except KError UInt64)
  | 0, _, firstVaddr => some (.ok firstVaddr)
  | n + 1, i, firstVaddr => do
    let type ← read32 data (phdrOffset phoff i)
    if type ≠ ptLoad then elfLoadLoop data phoff n (i + 1) firstVaddr
    else
      let vaddr ← read64 data (phdrOffset phoff i + 16)
      let firstVaddr := if vaddr < firstVaddr then vaddr else firstVaddr
      let paddr ← read64 data (phdrOffset phoff i + 24)
      let memsz ← read64 data (phdrOffset phoff i + 40)
      if paddr + memsz > elfLoadLimit then return .error .invalidArg
      else elfLoadLoop data phoff n (i + 1) firstVaddr

/-- What `elf_load` stores through its two pointers. -/
structure ElfImage where
  entry : UInt64
  vaddr : UInt64
  deriving DecidableEq, Repr

def elfLoad (data : List UInt8) (size : UInt64) : Option (Except KError ElfImage) := do
  let valid ← elfIsValid data size
  if ¬ valid then return .error .invalidArg
  else
    let phoff ← read64 data 32
    let phnum ← read16 data 56
    if phoff + phnum.toUInt64 * phdrSize > size then return .error .invalidArg
    else
      match ← elfLoadLoop data phoff phnum.toNat 0 (0 - 1) with
      | .error e => return .error e
      | .ok firstVaddr =>
        let entry ← read64 data 24
        return .ok { entry := entry, vaddr := firstVaddr }

/-! ### The loop over headers that are there to read -/

def readPhdr (data : List UInt8) (off : UInt64) : Option ElfPhdr := do
  let type ← read32 data off
  let vaddr ← read64 data (off + 16)
  let paddr ← read64 data (off + 24)
  let memsz ← read64 data (off + 40)
  return { type := type, vaddr := vaddr, paddr := paddr, memsz := memsz }

/-- The headers `i` to `i + n` of the table at `phoff`, those that lie inside the file. -/
def phdrsFrom (data : List UInt8) (phoff : UInt64) (i n : Nat) : List ElfPhdr :=
  (List.range' i n).filterMap fun j => readPhdr data (phdrOffset phoff j)

/-- The loop on headers that have been read. -/
def checkPhdrs : List ElfPhdr → UInt64 → Except KError UInt64
  | [], firstVaddr => .ok firstVaddr
  | p :: ps, firstVaddr =>
    if p.type ≠ ptLoad then checkPhdrs ps firstVaddr
    else if p.paddr + p.memsz > elfLoadLimit then .error .invalidArg
    else checkPhdrs ps (if p.vaddr < firstVaddr then p.vaddr else firstVaddr)

/-- Header `i` of the table ends inside the file. -/
def PhdrInside (data : List UInt8) (phoff : UInt64) (i : Nat) : Prop :=
  phoff.toNat + 56 * (i + 1) ≤ data.length

theorem PhdrInside.offset {data : List UInt8} (hs : Sized data) {phoff : UInt64} {i : Nat}
    (h : PhdrInside data phoff i) : (phdrOffset phoff i).toNat = phoff.toNat + 56 * i := by
  unfold PhdrInside at h
  unfold Sized at hs
  have hmul : (UInt64.ofNat i * phdrSize).toNat = 56 * i := by
    rw [UInt64.toNat_mul, UInt64.toNat_ofNat']
    show i % 2 ^ 64 * 56 % 2 ^ 64 = 56 * i
    rw [Nat.mod_eq_of_lt (show i < 2 ^ 64 by omega), Nat.mod_eq_of_lt (by omega)]
    exact Nat.mul_comm i 56
  rw [phdrOffset, UInt64.toNat_add, hmul]
  exact Nat.mod_eq_of_lt (by omega)

theorem PhdrInside.readPhdr {data : List UInt8} (hs : Sized data) {phoff : UInt64} {i : Nat}
    (h : PhdrInside data phoff i) : ∃ p, readPhdr data (phdrOffset phoff i) = some p := by
  have hoff := h.offset hs
  unfold PhdrInside at h
  have hfield : ∀ k : UInt64, k.toNat + 8 ≤ 56 →
      ∃ v, read64 data (phdrOffset phoff i + k) = some v := by
    intro k hk
    have hle : (phdrOffset phoff i).toNat + k.toNat + 8 ≤ data.length := by omega
    exact read64_isSome hs (by rw [toNat_add_of_le hs hle]; exact hle)
  obtain ⟨type, htype⟩ : ∃ v, read32 data (phdrOffset phoff i) = some v :=
    read32_isSome hs (by omega)
  obtain ⟨vaddr, hvaddr⟩ := hfield 16 (by decide)
  obtain ⟨paddr, hpaddr⟩ := hfield 24 (by decide)
  obtain ⟨memsz, hmemsz⟩ := hfield 40 (by decide)
  refine ⟨⟨type, vaddr, paddr, memsz⟩, ?_⟩
  rw [Moonlight.readPhdr, htype, hvaddr, hpaddr, hmemsz]
  rfl

theorem readPhdr_eq_some {data : List UInt8} {off : UInt64} {p : ElfPhdr}
    (h : readPhdr data off = some p) :
    read32 data off = some p.type ∧ read64 data (off + 16) = some p.vaddr ∧
      read64 data (off + 24) = some p.paddr ∧ read64 data (off + 40) = some p.memsz := by
  simp only [readPhdr, Option.bind_eq_bind, Option.bind_eq_some_iff] at h
  obtain ⟨type, htype, vaddr, hvaddr, paddr, hpaddr, memsz, hmemsz, hp⟩ := h
  cases hp
  exact ⟨htype, hvaddr, hpaddr, hmemsz⟩

theorem elfLoadLoop_succ {data : List UInt8} {phoff : UInt64} {i : Nat} {p : ElfPhdr}
    (h : readPhdr data (phdrOffset phoff i) = some p) (n : Nat) (firstVaddr : UInt64) :
    elfLoadLoop data phoff (n + 1) i firstVaddr =
      if p.type ≠ ptLoad then elfLoadLoop data phoff n (i + 1) firstVaddr
      else if p.paddr + p.memsz > elfLoadLimit then some (.error .invalidArg)
      else elfLoadLoop data phoff n (i + 1)
        (if p.vaddr < firstVaddr then p.vaddr else firstVaddr) := by
  obtain ⟨htype, hvaddr, hpaddr, hmemsz⟩ := readPhdr_eq_some h
  rw [elfLoadLoop, htype]
  simp only [Option.bind_eq_bind, Option.bind_some, hvaddr, hpaddr, hmemsz]
  rfl

/-- On a table inside the file the loop reads all of it, and its result is that of the
headers read. -/
theorem elfLoadLoop_eq {data : List UInt8} (hs : Sized data) {phoff : UInt64} {n i : Nat}
    (h : ∀ j, i ≤ j → j < i + n → PhdrInside data phoff j) (firstVaddr : UInt64) :
    elfLoadLoop data phoff n i firstVaddr =
      some (checkPhdrs (phdrsFrom data phoff i n) firstVaddr) := by
  induction n generalizing i firstVaddr with
  | zero => rfl
  | succ n ih =>
    obtain ⟨p, hp⟩ := (h i (Nat.le_refl i) (by omega)).readPhdr hs
    have htail : phdrsFrom data phoff i (n + 1) = p :: phdrsFrom data phoff (i + 1) n := by
      rw [phdrsFrom, List.range'_succ, List.filterMap_cons]
      simp only [hp]
      rfl
    have hrest : ∀ v, elfLoadLoop data phoff n (i + 1) v =
        some (checkPhdrs (phdrsFrom data phoff (i + 1) n) v) :=
      ih fun j hj hlt => h j (by omega) (by omega)
    rw [elfLoadLoop_succ hp, htail, checkPhdrs, hrest, hrest]
    by_cases htype : p.type ≠ ptLoad
    · rw [if_pos htype, if_pos htype]
    rw [if_neg htype, if_neg htype]
    by_cases hover : p.paddr + p.memsz > elfLoadLimit
    · rw [if_pos hover, if_pos hover]
    · rw [if_neg hover, if_neg hover]

/-! ### Reading inside the file -/

/-- `elf_size` is the length of the file. -/
def ElfSized (data : List UInt8) (size : UInt64) : Prop := size.toNat = data.length

theorem ElfSized.sized {data : List UInt8} {size : UInt64} (h : ElfSized data size) :
    Sized data := by
  unfold Sized
  rw [← h]
  exact size.toNat_lt

theorem header_field {data : List UInt8} (h : 64 ≤ data.length) {k n : Nat} (hk : k + n ≤ 64) :
    k + n ≤ data.length :=
  Nat.le_trans hk h

/-- The file header is read after the size test, so the test of the header always answers,
and a file that passes it holds a whole header. -/
theorem elfIsValid_cases {data : List UInt8} {size : UInt64} (h : ElfSized data size) :
    elfIsValid data size = some false ∨ (elfIsValid data size = some true ∧ 64 ≤ data.length) := by
  have hs := h.sized
  unfold elfIsValid
  by_cases hsize : size < ehdrSize
  · exact Or.inl (if_pos hsize)
  have hlen : 64 ≤ data.length := by
    have hle := UInt64.le_iff_toNat_le.mp (UInt64.not_lt.mp hsize)
    rw [h] at hle
    exact hle
  obtain ⟨magic, hmagic⟩ : ∃ v, read32 data 0 = some v :=
    read32_isSome hs (header_field hlen (by decide))
  obtain ⟨cls, hcls⟩ : ∃ v, read8 data 4 = some v :=
    read8_isSome hs (header_field hlen (by decide))
  obtain ⟨type, htype⟩ : ∃ v, read16 data 16 = some v :=
    read16_isSome hs (header_field hlen (by decide))
  rw [if_neg hsize, hmagic, hcls, htype]
  simp only [Option.bind_eq_bind, Option.bind_some]
  split_ifs
  · exact Or.inl rfl
  · exact Or.inl rfl
  · by_cases hexec : type = etExec
    · exact Or.inr ⟨by rw [hexec]; rfl, hlen⟩
    · exact Or.inl (by simp [hexec])

/-- The header fields that `elf_load` goes on to use. -/
structure ElfHeader (data : List UInt8) (phoff : UInt64) (phnum : UInt16) (entry : UInt64) :
    Prop where
  phoff : read64 data 32 = some phoff
  phnum : read16 data 56 = some phnum
  entry : read64 data 24 = some entry

theorem exists_elfHeader {data : List UInt8} (hs : Sized data) (h : 64 ≤ data.length) :
    ∃ phoff phnum entry, ElfHeader data phoff phnum entry := by
  obtain ⟨phoff, hphoff⟩ : ∃ v, read64 data 32 = some v :=
    read64_isSome hs (header_field h (by decide))
  obtain ⟨phnum, hphnum⟩ : ∃ v, read16 data 56 = some v :=
    read16_isSome hs (header_field h (by decide))
  obtain ⟨entry, hentry⟩ : ∃ v, read64 data 24 = some v :=
    read64_isSome hs (header_field h (by decide))
  exact ⟨phoff, phnum, entry, hphoff, hphnum, hentry⟩

theorem elfLoad_of_invalid {data : List UInt8} {size : UInt64}
    (h : elfIsValid data size = some false) : elfLoad data size = some (.error .invalidArg) := by
  rw [elfLoad, h]
  rfl

section Accepted

variable {data : List UInt8} {size phoff entry : UInt64} {phnum : UInt16}

theorem elfLoad_of_valid (h : elfIsValid data size = some true)
    (hdr : ElfHeader data phoff phnum entry) :
    elfLoad data size =
      if phoff + phnum.toUInt64 * phdrSize > size then some (.error .invalidArg)
      else (elfLoadLoop data phoff phnum.toNat 0 (0 - 1)).map
        fun r => r.map fun firstVaddr => { entry := entry, vaddr := firstVaddr } := by
  rw [elfLoad, h, hdr.phoff, hdr.phnum, hdr.entry]
  simp only [Option.bind_eq_bind, Option.bind_some]
  by_cases hover : phoff + phnum.toUInt64 * phdrSize > size
  · simp [hover]
  · cases elfLoadLoop data phoff phnum.toNat 0 (0 - 1) with
    | none => simp [hover]
    | some r => cases r <;> simp [hover, Except.map]

/-- The number of bytes up to the end of the table, before it is cut to 64 bits. -/
def tableEnd (phoff : UInt64) (phnum : UInt16) : Nat := phoff.toNat + 56 * phnum.toNat

theorem toNat_tableEnd (phoff : UInt64) (phnum : UInt16) :
    (phoff + phnum.toUInt64 * phdrSize).toNat = tableEnd phoff phnum % 2 ^ 64 := by
  have hlt := phnum.toNat_lt
  have hmul : (phnum.toUInt64 * phdrSize).toNat = 56 * phnum.toNat := by
    rw [UInt64.toNat_mul, UInt16.toNat_toUInt64]
    show phnum.toNat * 56 % 2 ^ 64 = 56 * phnum.toNat
    omega
  rw [UInt64.toNat_add, hmul]
  rfl

/-- On a table inside the file, `elf_load` is the check of the headers read. -/
theorem elfLoad_eq (hsize : ElfSized data size) (h : elfIsValid data size = some true)
    (hdr : ElfHeader data phoff phnum entry) (hinside : tableEnd phoff phnum ≤ data.length) :
    elfLoad data size = some ((checkPhdrs (phdrsFrom data phoff 0 phnum.toNat) (0 - 1)).map
      fun firstVaddr => { entry := entry, vaddr := firstVaddr }) := by
  have hle : ¬ phoff + phnum.toUInt64 * phdrSize > size := by
    rw [gt_iff_lt, UInt64.lt_iff_toNat_lt, toNat_tableEnd, hsize]
    have hmod := Nat.mod_le (tableEnd phoff phnum) (2 ^ 64)
    omega
  have hphdrs : ∀ j, 0 ≤ j → j < 0 + phnum.toNat → PhdrInside data phoff j := by
    intro j _ hj
    unfold tableEnd at hinside
    unfold PhdrInside
    omega
  rw [elfLoad_of_valid h hdr, if_neg hle, elfLoadLoop_eq hsize.sized hphdrs]
  rfl

/-- The end of the table is a 64-bit number. -/
def TableUnwrapped (data : List UInt8) : Prop :=
  ∀ phoff phnum entry, ElfHeader data phoff phnum entry → tableEnd phoff phnum < 2 ^ 64

/-- The loader's checks of the file header, the test of the table's end included. -/
def ElfChecksPass (data : List UInt8) (size : UInt64) : Prop :=
  elfIsValid data size = some true ∧ ∀ phoff phnum entry, ElfHeader data phoff phnum entry →
    phoff + phnum.toUInt64 * phdrSize ≤ size

theorem ElfHeader.forall_iff (hdr : ElfHeader data phoff phnum entry)
    {P : UInt64 → UInt16 → Prop} :
    (∀ phoff phnum entry, ElfHeader data phoff phnum entry → P phoff phnum) ↔ P phoff phnum := by
  refine ⟨fun h => h phoff phnum entry hdr, fun h phoff' phnum' entry' hdr' => ?_⟩
  cases hdr.phoff.symm.trans hdr'.phoff
  cases hdr.phnum.symm.trans hdr'.phnum
  exact h

/-- A wrapped table starts above every file of the sizes considered, so the first header
already lies outside. -/
theorem elfLoadLoop_eq_none (hlen : data.length + 56 * 65535 ≤ 2 ^ 64)
    (hwrap : 2 ^ 64 ≤ tableEnd phoff phnum) (firstVaddr : UInt64) :
    elfLoadLoop data phoff phnum.toNat 0 firstVaddr = none := by
  unfold tableEnd at hwrap
  have hmax : phnum.toNat < 65536 := phnum.toNat_lt
  have hphoff : phoff.toNat < 2 ^ 64 := phoff.toNat_lt
  obtain ⟨n, hn⟩ : ∃ n, phnum.toNat = n + 1 := Nat.exists_eq_succ_of_ne_zero (by omega)
  have hfirst : phdrOffset phoff 0 = phoff := by
    show phoff + 0 * phdrSize = phoff
    rw [UInt64.zero_mul, UInt64.add_zero]
  rw [hn, elfLoadLoop, hfirst, read32_eq_none (by omega)]
  rfl

/-- Once the header has passed, the loader reads inside the file if the end of the table
did not wrap to pass, and outside if it did. -/
theorem elfLoad_ne_none (hsize : ElfSized data size) (h : elfIsValid data size = some true)
    (hdr : ElfHeader data phoff phnum entry) (hle : phoff + phnum.toUInt64 * phdrSize ≤ size)
    (hlt : tableEnd phoff phnum < 2 ^ 64) : elfLoad data size ≠ none := by
  have hend := UInt64.le_iff_toNat_le.mp hle
  rw [toNat_tableEnd, Nat.mod_eq_of_lt hlt, hsize] at hend
  rw [elfLoad_eq hsize h hdr hend]
  exact Option.some_ne_none _

theorem elfLoad_eq_none (h : elfIsValid data size = some true)
    (hdr : ElfHeader data phoff phnum entry) (hle : phoff + phnum.toUInt64 * phdrSize ≤ size)
    (hlen : data.length + 56 * 65535 ≤ 2 ^ 64) (hwrap : 2 ^ 64 ≤ tableEnd phoff phnum) :
    elfLoad data size = none := by
  rw [elfLoad_of_valid h hdr, if_neg (UInt64.not_lt.mpr hle), elfLoadLoop_eq_none hlen hwrap]
  rfl

end Accepted

/-- A file that the checks of the header refuse is refused without another read. -/
theorem elfLoad_of_not_pass {data : List UInt8} {size : UInt64} (hsize : ElfSized data size)
    (h : ¬ ElfChecksPass data size) : elfLoad data size = some (.error .invalidArg) := by
  rcases elfIsValid_cases hsize with hinvalid | ⟨hvalid, hlen⟩
  · exact elfLoad_of_invalid hinvalid
  · obtain ⟨phoff, phnum, entry, hdr⟩ := exists_elfHeader hsize.sized hlen
    rw [elfLoad_of_valid hvalid hdr]
    apply if_pos
    apply UInt64.not_le.mp
    intro hle
    exact h ⟨hvalid, hdr.forall_iff.mpr hle⟩

/-- `elf_load` reads only inside the file if the checks of the header refuse it or the end
of the table does not wrap; and for every file that leaves room for a table above it, only
then. -/
theorem elfLoad_reads_inside {data : List UInt8} {size : UInt64} (hsize : ElfSized data size) :
    ((ElfChecksPass data size → TableUnwrapped data) → elfLoad data size ≠ none) ∧
    (data.length + 56 * 65535 ≤ 2 ^ 64 →
      (elfLoad data size ≠ none ↔ (ElfChecksPass data size → TableUnwrapped data))) := by
  by_cases hpass : ElfChecksPass data size
  · obtain ⟨hvalid, hle⟩ := hpass
    rcases elfIsValid_cases hsize with hinvalid | ⟨-, hlen⟩
    · rw [hvalid] at hinvalid
      cases hinvalid
    obtain ⟨phoff, phnum, entry, hdr⟩ := exists_elfHeader hsize.sized hlen
    have hle' := hle phoff phnum entry hdr
    have hsuff : (ElfChecksPass data size → TableUnwrapped data) → elfLoad data size ≠ none :=
      fun h => elfLoad_ne_none hsize hvalid hdr hle' (h ⟨hvalid, hle⟩ phoff phnum entry hdr)
    refine ⟨hsuff, fun hroom => ⟨fun hne _ => hdr.forall_iff.mpr ?_, hsuff⟩⟩
    by_contra hwrap
    exact hne (elfLoad_eq_none hvalid hdr hle' hroom (Nat.not_lt.mp hwrap))
  · have hne : elfLoad data size ≠ none := by
      rw [elfLoad_of_not_pass hsize hpass]
      exact Option.some_ne_none _
    exact ⟨fun _ => hne, fun _ => iff_of_true hne fun h => absurd h hpass⟩

/-- A 64-byte file header for an executable, with the table of program headers where the
eight bytes `phoff` say. -/
def elfBytes (phoff : List UInt8) (phnum : UInt8) : List UInt8 :=
  [0x7F, 0x45, 0x4C, 0x46, 2, 1, 1, 0, 0, 0, 0, 0, 0, 0, 0, 0, 2, 0, 0xF3, 0, 1, 0, 0, 0] ++
    [0, 0, 1, 0, 0, 0, 0, 0] ++ phoff ++
    [0, 0, 0, 0, 0, 0, 0, 0, 0, 0, 0, 0, 64, 0, 56, 0, phnum, 0, 0, 0, 0, 0, 0, 0]

/-- One program header 56 bytes before the end of the address space: its table ends at 0. -/
def elfWrapped : List UInt8 := elfBytes [0xC8, 0xFF, 0xFF, 0xFF, 0xFF, 0xFF, 0xFF, 0xFF] 1

/-- The wrapped table passes the bounds check and is read outside the file. -/
theorem elfLoad_reads_outside :
    ElfSized elfWrapped 64 ∧ ElfChecksPass elfWrapped 64 ∧ elfLoad elfWrapped 64 = none := by
  have hdr : ElfHeader elfWrapped 0xFFFFFFFFFFFFFFC8 1 0x10000 := ⟨rfl, rfl, rfl⟩
  exact ⟨rfl, ⟨rfl, hdr.forall_iff.mpr (by decide)⟩, rfl⟩

/-- One PT_LOAD program header with virtual address 0x10000, and physical range as given. -/
def phdrBytes (paddr memsz : List UInt8) : List UInt8 :=
  [1, 0, 0, 0, 5, 0, 0, 0, 0, 0, 0, 0, 0, 0, 0, 0, 0, 0, 1, 0, 0, 0, 0, 0] ++ paddr ++
    [0, 0, 0, 0, 0, 0, 0, 0] ++ memsz ++ [0, 0x10, 0, 0, 0, 0, 0, 0]

/-- A file with one segment of one page at 0x80000000. -/
def elfPlain : List UInt8 :=
  elfBytes [64, 0, 0, 0, 0, 0, 0, 0] 1 ++
    phdrBytes [0, 0, 0, 0x80, 0, 0, 0, 0] [0, 0x10, 0, 0, 0, 0, 0, 0]

theorem elfPlain_header : ElfHeader elfPlain 64 1 0x10000 := ⟨rfl, rfl, rfl⟩

theorem elfLoad_reads_inside_plain : elfLoad elfPlain 120 ≠ none :=
  (elfLoad_reads_inside (show ElfSized elfPlain 120 from rfl)).1
    fun _ => elfPlain_header.forall_iff.mpr (by decide)

/-! ### What an accepted file says about its segments -/

/-- The program headers of the file. -/
def programHeaders (data : List UInt8) : List ElfPhdr :=
  match read64 data 32, read16 data 56 with
  | some phoff, some phnum => phdrsFrom data phoff 0 phnum.toNat
  | _, _ => []

theorem ElfHeader.programHeaders {data : List UInt8} {phoff entry : UInt64} {phnum : UInt16}
    (hdr : ElfHeader data phoff phnum entry) :
    programHeaders data = phdrsFrom data phoff 0 phnum.toNat := by
  rw [Moonlight.programHeaders, hdr.phoff, hdr.phnum]

/-- The check that the loop makes of a header. -/
def ElfPhdr.Passes (p : ElfPhdr) : Prop := p.type = ptLoad → p.paddr + p.memsz ≤ elfLoadLimit

/-- The segment ends at or below the limit. -/
def ElfPhdr.Below (p : ElfPhdr) : Prop :=
  p.type = ptLoad → p.paddr.toNat + p.memsz.toNat ≤ 0x90000000

/-- The end of the segment is a 64-bit number. -/
def ElfPhdr.Unwrapped (p : ElfPhdr) : Prop :=
  p.type = ptLoad → p.paddr.toNat + p.memsz.toNat < 2 ^ 64

/-- `v` is the least of `first` and the virtual addresses of the segments. -/
structure LowestVaddr (ps : List ElfPhdr) (first v : UInt64) : Prop where
  le_first : v ≤ first
  le : ∀ p ∈ ps, p.type = ptLoad → v ≤ p.vaddr
  attained : v = first ∨ ∃ p ∈ ps, p.type = ptLoad ∧ p.vaddr = v

theorem LowestVaddr.nil (first : UInt64) : LowestVaddr [] first first :=
  ⟨UInt64.le_refl first, fun _ h => absurd h List.not_mem_nil, Or.inl rfl⟩

theorem LowestVaddr.skip {ps : List ElfPhdr} {p : ElfPhdr} {first v : UInt64}
    (h : LowestVaddr ps first v) (hp : p.type ≠ ptLoad) : LowestVaddr (p :: ps) first v := by
  refine ⟨h.le_first, fun q hq hload => ?_, h.attained.imp_right ?_⟩
  · rcases List.mem_cons.mp hq with rfl | hq
    · exact absurd hload hp
    · exact h.le q hq hload
  · rintro ⟨q, hq, hload⟩
    exact ⟨q, List.mem_cons_of_mem p hq, hload⟩

theorem LowestVaddr.cons {ps : List ElfPhdr} {p : ElfPhdr} {first v : UInt64}
    (h : LowestVaddr ps (if p.vaddr < first then p.vaddr else first) v) (hp : p.type = ptLoad) :
    LowestVaddr (p :: ps) first v := by
  have hmin : v ≤ p.vaddr ∧ v ≤ first := by
    have hle := h.le_first
    split_ifs at hle with hlt
    · exact ⟨hle, UInt64.le_trans hle (UInt64.le_of_lt hlt)⟩
    · exact ⟨UInt64.le_trans hle (UInt64.not_lt.mp hlt), hle⟩
  refine ⟨hmin.2, fun q hq hload => ?_, ?_⟩
  · rcases List.mem_cons.mp hq with rfl | hq
    · exact hmin.1
    · exact h.le q hq hload
  · rcases h.attained with hv | ⟨q, hq, hload⟩
    · split_ifs at hv
      · exact Or.inr ⟨p, List.mem_cons_self, hp, hv.symm⟩
      · exact Or.inl hv
    · exact Or.inr ⟨q, List.mem_cons_of_mem p hq, hload⟩

/-- The loop accepts the headers that all pass, and then holds the lowest address. -/
theorem checkPhdrs_cases (ps : List ElfPhdr) (first : UInt64) :
    (∃ v, checkPhdrs ps first = .ok v ∧ (∀ p ∈ ps, p.Passes) ∧ LowestVaddr ps first v) ∨
    (checkPhdrs ps first = .error .invalidArg ∧ ∃ p ∈ ps, ¬ p.Passes) := by
  induction ps generalizing first with
  | nil => exact Or.inl ⟨first, rfl, fun _ h => absurd h List.not_mem_nil, LowestVaddr.nil first⟩
  | cons p ps ih =>
    rw [checkPhdrs]
    by_cases hload : p.type = ptLoad
    · rw [if_neg (not_not.mpr hload)]
      by_cases hover : p.paddr + p.memsz > elfLoadLimit
      · rw [if_pos hover]
        refine Or.inr ⟨rfl, p, List.mem_cons_self, fun hpass => ?_⟩
        exact absurd hover (UInt64.not_lt.mpr (hpass hload))
      · rw [if_neg hover]
        have hp : p.Passes := fun _ => UInt64.not_lt.mp hover
        rcases ih (if p.vaddr < first then p.vaddr else first) with
          ⟨v, he, hall, hlow⟩ | ⟨he, q, hq, hnot⟩
        · exact Or.inl ⟨v, he, List.forall_mem_cons.mpr ⟨hp, hall⟩, hlow.cons hload⟩
        · exact Or.inr ⟨he, q, List.mem_cons_of_mem p hq, hnot⟩
    · rw [if_pos hload]
      have hp : p.Passes := fun h => absurd h hload
      rcases ih first with ⟨v, he, hall, hlow⟩ | ⟨he, q, hq, hnot⟩
      · exact Or.inl ⟨v, he, List.forall_mem_cons.mpr ⟨hp, hall⟩, hlow.skip hload⟩
      · exact Or.inr ⟨he, q, List.mem_cons_of_mem p hq, hnot⟩

/-- The image is what an accepted file promises: every segment ends below the limit, and
the address reported is the lowest of theirs. -/
structure ElfImage.Fits (img : ElfImage) (ps : List ElfPhdr) : Prop where
  below : ∀ p ∈ ps, p.Below
  lowest : (∃ p ∈ ps, p.type = ptLoad) →
    (∃ p ∈ ps, p.type = ptLoad ∧ p.vaddr = img.vaddr) ∧
      ∀ p ∈ ps, p.type = ptLoad → img.vaddr ≤ p.vaddr

/-- `first_vaddr` starts at the highest address, which no header can undercut unless it is
itself the lowest. -/
theorem LowestVaddr.of_max {ps : List ElfPhdr} {v : UInt64} (h : LowestVaddr ps (0 - 1) v)
    (hex : ∃ p ∈ ps, p.type = ptLoad) : ∃ p ∈ ps, p.type = ptLoad ∧ p.vaddr = v := by
  rcases h.attained with hmax | hseg
  · obtain ⟨p, hp, hload⟩ := hex
    refine ⟨p, hp, hload, UInt64.le_antisymm ?_ (h.le p hp hload)⟩
    rw [hmax, UInt64.le_iff_toNat_le]
    exact Nat.le_of_lt_succ p.vaddr.toNat_lt
  · exact hseg

/-- A header that passes is below the limit exactly if its sum does not wrap. -/
theorem ElfPhdr.Passes.below_iff {p : ElfPhdr} (h : p.Passes) : p.Below ↔ p.Unwrapped := by
  refine forall_congr' fun hload => ?_
  have hle := UInt64.le_iff_toNat_le.mp (h hload)
  rw [UInt64.toNat_add] at hle
  have hlimit : elfLoadLimit.toNat = 0x90000000 := rfl
  omega

/-- The program headers lie inside the file. -/
def TableInside (data : List UInt8) : Prop :=
  ∀ phoff phnum entry, ElfHeader data phoff phnum entry → tableEnd phoff phnum ≤ data.length

/-- A file that passes the header test and whose headers all pass is accepted, with the
lowest address of its segments; any other file is refused. -/
theorem elfLoad_cases {data : List UInt8} {size : UInt64} (hsize : ElfSized data size)
    (hinside : TableInside data) :
    (∃ img, elfLoad data size = some (.ok img) ∧ elfIsValid data size = some true ∧
      (∀ p ∈ programHeaders data, p.Passes) ∧
      LowestVaddr (programHeaders data) (0 - 1) img.vaddr) ∨
    (elfLoad data size = some (.error .invalidArg) ∧
      ¬ (elfIsValid data size = some true ∧ ∀ p ∈ programHeaders data, p.Passes)) := by
  rcases elfIsValid_cases hsize with hinvalid | ⟨hvalid, hlen⟩
  · refine Or.inr ⟨elfLoad_of_invalid hinvalid, fun h => ?_⟩
    rw [h.1] at hinvalid
    cases hinvalid
  obtain ⟨phoff, phnum, entry, hdr⟩ := exists_elfHeader hsize.sized hlen
  have hload := elfLoad_eq hsize hvalid hdr (hinside phoff phnum entry hdr)
  rw [← hdr.programHeaders] at hload
  rcases checkPhdrs_cases (programHeaders data) (0 - 1) with ⟨v, he, hall, hlow⟩ | ⟨he, p, hp, hnot⟩
  · rw [he] at hload
    exact Or.inl ⟨⟨entry, v⟩, hload, hvalid, hall, hlow⟩
  · rw [he] at hload
    exact Or.inr ⟨hload, fun h => hnot (h.2 p hp)⟩

/-- The images that `elf_load` accepts fit below the limit if and only if no sum of a file
that passes the checks wraps. -/
theorem elfLoad_fits_iff {data : List UInt8} {size : UInt64} (hsize : ElfSized data size)
    (hinside : TableInside data) :
    (∀ img, elfLoad data size = some (.ok img) → img.Fits (programHeaders data)) ↔
      (elfIsValid data size = some true → (∀ p ∈ programHeaders data, p.Passes) →
        ∀ p ∈ programHeaders data, p.Unwrapped) := by
  rcases elfLoad_cases hsize hinside with ⟨img, hload, hvalid, hall, hlow⟩ | ⟨hload, hnot⟩
  · constructor
    · intro h _ _ p hp
      exact (hall p hp).below_iff.mp ((h img hload).below p hp)
    · intro h img' himg
      cases hload.symm.trans himg
      refine ⟨fun p hp => (hall p hp).below_iff.mpr (h hvalid hall p hp), fun hex => ?_⟩
      exact ⟨hlow.of_max hex, hlow.le⟩
  · constructor
    · intro _ hvalid hall
      exact absurd ⟨hvalid, hall⟩ hnot
    · intro _ img himg
      cases hload.symm.trans himg

/-- A file whose one segment starts a page below 2 ^ 64 and is a page long. -/
def elfHigh : List UInt8 :=
  elfBytes [64, 0, 0, 0, 0, 0, 0, 0] 1 ++
    phdrBytes [0, 0xF0, 0xFF, 0xFF, 0xFF, 0xFF, 0xFF, 0xFF] [0, 0x10, 0, 0, 0, 0, 0, 0]

/-- Its end wraps to 0, and the file is accepted. -/
theorem elfLoad_accepts_high_segment :
    ElfSized elfHigh 120 ∧ TableInside elfHigh ∧
    elfLoad elfHigh 120 = some (.ok { entry := 0x10000, vaddr := 0x10000 }) ∧
    programHeaders elfHigh = [⟨ptLoad, 0x10000, 0xFFFFFFFFFFFFF000, 0x1000⟩] ∧
    ¬ ∀ p ∈ programHeaders elfHigh, p.Below := by
  have hdr : ElfHeader elfHigh 64 1 0x10000 := ⟨rfl, rfl, rfl⟩
  have hphdrs : programHeaders elfHigh = [⟨ptLoad, 0x10000, 0xFFFFFFFFFFFFF000, 0x1000⟩] := rfl
  refine ⟨rfl, hdr.forall_iff.mpr (by decide), rfl, hphdrs, fun h => ?_⟩
  rw [hphdrs] at h
  exact absurd (h _ List.mem_cons_self rfl) (by decide)

theorem elfLoad_fits_plain :
    elfLoad elfPlain 120 = some (.ok { entry := 0x10000, vaddr := 0x10000 }) ∧
    ElfImage.Fits { entry := 0x10000, vaddr := 0x10000 } (programHeaders elfPlain) := by
  have hload : elfLoad elfPlain 120 = some (.ok { entry := 0x10000, vaddr := 0x10000 }) := rfl
  have hinside : TableInside elfPlain := elfPlain_header.forall_iff.mpr (by decide)
  have hphdrs : programHeaders elfPlain = [⟨ptLoad, 0x10000, 0x80000000, 0x1000⟩] := rfl
  have hsize : ElfSized elfPlain 120 := rfl
  refine ⟨hload, (elfLoad_fits_iff hsize hinside).mpr (fun _ _ p hp => ?_) _ hload⟩
  rw [hphdrs, List.mem_singleton] at hp
  subst hp
  exact fun _ => by decide

end Moonlight
