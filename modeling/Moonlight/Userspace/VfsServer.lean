/-
The file table of the VFS server.

`vfs_create` takes the first free entry and copies the name into its field of 32 bytes;
`vfs_open` takes the first valid entry whose name compares equal.  Nothing compares the
name of a new file with the names that are there, and a name of 32 bytes or more is
stored without its terminator.

The model follows the build without CHERI.  The variable `next_fd` is never used and is
left out.
-/
import Moonlight.Lib.CString
import Moonlight.Lib.Run

namespace Moonlight

def maxFiles : Nat := 64

def maxFd : Nat := 32

/-- `vfs_file_t`. -/
structure VfsFile where
  cap : UInt32
  size : UInt32
  used : UInt32
  color : UInt16
  name : List UInt8
  valid : Bool

/-- `vfs_fd_t`. -/
structure VfsFd where
  fileId : UInt32
  offset : UInt32
  rights : UInt32
  valid : Bool

/-- The static variables of the server. -/
structure VfsServer where
  files : Nat → VfsFile
  fds : Nat → VfsFd

def VfsFile.zero : VfsFile :=
  { cap := 0, size := 0, used := 0, color := 0, name := List.replicate 32 0, valid := false }

def frameCapIsValid (cptr : UInt32) (len : UInt64) : Bool := cptr ≠ 0 && len < 0x100000

namespace VfsServer

/-- The entry the loop of `vfs_create` stops at. -/
def freeFile (s : VfsServer) : Option Nat :=
  (List.range maxFiles).find? fun i => !(s.files i).valid

/-- The descriptor the inner loop of `vfs_open` stops at. -/
def freeFd (s : VfsServer) : Option Nat := (List.range maxFd).find? fun fd => !(s.fds fd).valid

end VfsServer

def vfsCreate (s : VfsServer) (name : CString) (cap size : UInt32) (color : UInt16) :
    Int × VfsServer :=
  match s.freeFile with
  | none => (-1, s)
  | some i =>
    if frameCapIsValid cap size.toUInt64 = false then (-1, s)
    else
      (0,
        { s with
          files := Function.update s.files i
            { cap := cap, size := size, used := 0, color := color, name := name.strncpy 32,
              valid := true } })

/-- The loop of `vfs_open` over the entries that are left, with `none` when `strcmp`
reads past the field of a name or past the memory of the argument.  An entry that matches
is passed over when there is no free descriptor. -/
def vfsOpenLoop (s : VfsServer) (name : List UInt8) (rights : UInt32) :
    List Nat → Option (Int × VfsServer)
  | [] => some (-1, s)
  | i :: rest =>
      if (s.files i).valid then
        match CString.strcmp (s.files i).name name with
        | none => none
        | some .eq =>
          match s.freeFd with
          | some fd =>
            some (fd,
              { s with
                fds := Function.update s.fds fd
                  { fileId := UInt32.ofNat i, offset := 0, rights := rights, valid := true } })
          | none => vfsOpenLoop s name rights rest
        | some _ => vfsOpenLoop s name rights rest
      else vfsOpenLoop s name rights rest

def vfsOpen (s : VfsServer) (name : CString) (rights : UInt32) : Option (Int × VfsServer) :=
  vfsOpenLoop s name.terminated rights (List.range maxFiles)

/-! ### What one call can do -/

namespace VfsServer

def ValidFile (s : VfsServer) (i : Nat) : Prop := i < maxFiles ∧ (s.files i).valid = true

/-- The checks of `vfs_create`: an entry is free and the capability is a usable one. -/
def Admits (s : VfsServer) (cap size : UInt32) : Prop :=
  (∃ i, i < maxFiles ∧ (s.files i).valid = false) ∧ frameCapIsValid cap size.toUInt64 = true

/-- The entry is one that `vfs_open` takes for the name. -/
def Answers (s : VfsServer) (i : Nat) (name : CString) : Prop :=
  s.ValidFile i ∧ CString.strcmp (s.files i).name name.terminated = some .eq

/-- Opening the name gives a descriptor for file `i`. -/
def Opens (s : VfsServer) (name : CString) (i : Nat) : Prop :=
  ∀ rights, ∃ (fd : Nat) (s' : VfsServer), fd < maxFd ∧
    vfsOpen s name rights = some ((fd : Int), s') ∧
    (s'.fds fd).valid = true ∧ (s'.fds fd).fileId = UInt32.ofNat i

end VfsServer

theorem VfsServer.freeFile_spec {s : VfsServer} {i : Nat} (h : s.freeFile = some i) :
    i < maxFiles ∧ (s.files i).valid = false := by
  have hfree := List.find?_some h
  exact ⟨List.mem_range.mp (List.mem_of_find?_eq_some h), by simpa using hfree⟩

theorem VfsServer.valid_of_freeFile_none {s : VfsServer} (h : s.freeFile = none) {i : Nat}
    (hi : i < maxFiles) : (s.files i).valid = true := by
  have hvalid := List.find?_eq_none.mp h i (List.mem_range.mpr hi)
  simpa using hvalid

theorem vfsCreate_cases (s : VfsServer) (name : CString) (cap size : UInt32) (color : UInt16) :
    (¬ s.Admits cap size ∧ vfsCreate s name cap size color = (-1, s)) ∨
    (s.Admits cap size ∧
      ∃ i file, s.freeFile = some i ∧ file.name = name.strncpy 32 ∧ file.valid = true ∧
        vfsCreate s name cap size color =
          (0, { s with files := Function.update s.files i file })) := by
  unfold vfsCreate
  cases hfree : s.freeFile with
  | none =>
    refine Or.inl ⟨fun hadm => ?_, rfl⟩
    obtain ⟨i, hi, hfree'⟩ := hadm.1
    exact Bool.false_ne_true (hfree'.symm.trans (VfsServer.valid_of_freeFile_none hfree hi))
  | some i =>
    simp only
    split_ifs with hcap
    · exact Or.inl ⟨fun hadm => Bool.false_ne_true (hcap.symm.trans hadm.2), rfl⟩
    · exact Or.inr ⟨⟨⟨i, VfsServer.freeFile_spec hfree⟩, Bool.not_eq_false _ ▸ hcap⟩, i, _, rfl, rfl,
        rfl, rfl⟩

/-- The comparison with the name is decided before the end of the field and says that
the names differ. -/
def VfsServer.Differs (s : VfsServer) (i : Nat) (name : CString) : Prop :=
  ∃ o, CString.strcmp (s.files i).name name.terminated = some o ∧ o ≠ .eq

theorem vfsOpenLoop_skip {s : VfsServer} {name : CString} (rights : UInt32) {before : List Nat}
    (rest : List Nat) (hbefore : ∀ j ∈ before, (s.files j).valid = true → s.Differs j name) :
    vfsOpenLoop s name.terminated rights (before ++ rest) =
      vfsOpenLoop s name.terminated rights rest := by
  induction before with
  | nil => rfl
  | cons j before ih =>
    have hrest := ih fun j' hj' => hbefore j' (List.mem_cons_of_mem j hj')
    rw [List.cons_append, vfsOpenLoop]
    by_cases hv : (s.files j).valid = true
    · obtain ⟨o, ho, hne⟩ := hbefore j List.mem_cons_self hv
      rw [if_pos hv, ho]
      cases o with
      | lt => exact hrest
      | eq => exact absurd rfl hne
      | gt => exact hrest
    · rw [if_neg hv]
      exact hrest

/-- Where every other valid entry differs, the loop gets to entry `i`. -/
theorem vfsOpen_reaches {s : VfsServer} {name : CString} {i : Nat} (hi : i < maxFiles)
    (hother : ∀ j, s.ValidFile j → j ≠ i → s.Differs j name) (rights : UInt32) :
    ∃ rest, vfsOpen s name rights = vfsOpenLoop s name.terminated rights (i :: rest) := by
  obtain ⟨before, rest, hsplit⟩ := List.append_of_mem (List.mem_range.mpr hi)
  refine ⟨rest, ?_⟩
  rw [vfsOpen, hsplit]
  refine vfsOpenLoop_skip rights (i :: rest) fun j hj hv => hother j ⟨?_, hv⟩ fun heq => ?_
  · have hmem : j ∈ List.range maxFiles := by
      rw [hsplit]
      exact List.mem_append_left _ hj
    exact List.mem_range.mp hmem
  · have hnodup := List.nodup_range (n := maxFiles)
    rw [hsplit] at hnodup
    exact (List.nodup_append.mp hnodup).2.2 j hj i List.mem_cons_self heq

theorem VfsServer.opens_of_answers {s : VfsServer} {name : CString} {i fd : Nat}
    (hfd : s.freeFd = some fd) (h : s.Answers i name)
    (hother : ∀ j, s.ValidFile j → j ≠ i → s.Differs j name) : s.Opens name i := by
  intro rights
  obtain ⟨⟨hi, hv⟩, heq⟩ := h
  obtain ⟨rest, hreach⟩ := vfsOpen_reaches hi hother rights
  have hopen : vfsOpenLoop s name.terminated rights (i :: rest) =
      some ((fd : Int),
        { s with
          fds := Function.update s.fds fd
            { fileId := UInt32.ofNat i, offset := 0, rights := rights, valid := true } }) := by
    simp only [vfsOpenLoop, hv, if_true, heq, hfd]
  refine ⟨fd, _, List.mem_range.mp (List.mem_of_find?_eq_some hfd), hreach.trans hopen, ?_, ?_⟩
  · simp only [Function.update_self]
  · simp only [Function.update_self]

theorem VfsServer.not_opens_of_undefined {s : VfsServer} {name : CString} {i : Nat}
    (h : s.ValidFile i) (hnone : CString.strcmp (s.files i).name name.terminated = none)
    (hother : ∀ j, s.ValidFile j → j ≠ i → s.Differs j name) : ¬ s.Opens name i := by
  intro hopens
  obtain ⟨fd, s', -, heq, -⟩ := hopens 0
  obtain ⟨rest, hreach⟩ := vfsOpen_reaches h.1 hother 0
  rw [hreach, vfsOpenLoop, if_pos h.2, hnone] at heq
  cases heq

/-! ### Runs -/

/-- The arguments of a call of `vfs_create`. -/
structure VfsRequest where
  name : CString
  cap : UInt32
  size : UInt32
  color : UInt16

/-- The server, and for every entry the name it was created under. -/
structure VfsHistory where
  server : VfsServer
  names : Nat → CString

namespace VfsHistory

def start (fds : Nat → VfsFd) : VfsHistory :=
  { server := { files := fun _ => VfsFile.zero, fds := fds }
    names := fun _ => ⟨[], List.not_mem_nil⟩ }

/-- The call returns zero. -/
def Accepts (h : VfsHistory) (r : VfsRequest) : Prop :=
  (vfsCreate h.server r.name r.cap r.size r.color).1 = 0

instance (h : VfsHistory) (r : VfsRequest) : Decidable (h.Accepts r) :=
  inferInstanceAs (Decidable (_ = (0 : Int)))

def step (h : VfsHistory) (r : VfsRequest) : VfsHistory :=
  { server := (vfsCreate h.server r.name r.cap r.size r.color).2
    names := if h.Accepts r then
        match h.server.freeFile with
        | some i => Function.update h.names i r.name
        | none => h.names
      else h.names }

/-- Every file is the one its name opens, and no name has two files. -/
structure NamesIdentify (h : VfsHistory) : Prop where
  opens : ∀ i, h.server.ValidFile i → h.server.Opens (h.names i) i
  unique : ∀ i j name, h.server.Answers i name → h.server.Answers j name → i = j

/-- Where the checks pass, the name leaves room for its terminator and is not in use. -/
def FreshName (h : VfsHistory) (r : VfsRequest) : Prop :=
  h.server.Admits r.cap r.size →
    r.name.bytes.length < 32 ∧ ∀ i, h.server.ValidFile i → h.names i ≠ r.name

/-- The fields hold the names, and the names are different. -/
structure Inv (h : VfsHistory) : Prop where
  fd : ∃ fd, h.server.freeFd = some fd
  stored : ∀ i, h.server.ValidFile i → (h.server.files i).name = (h.names i).strncpy 32 ∧
    (h.names i).bytes.length < 32
  apart : ∀ i j, h.server.ValidFile i → h.server.ValidFile j → h.names i = h.names j → i = j

variable {h h' : VfsHistory}

/-- One more file, at an entry that was free. -/
structure Added (h h' : VfsHistory) (i : Nat) (name : CString) : Prop where
  lt : i < maxFiles
  free : ¬ h.server.ValidFile i
  fds : h'.server.fds = h.server.fds
  file : (h'.server.files i).name = name.strncpy 32 ∧ (h'.server.files i).valid = true
  new : h'.names i = name
  other : ∀ j, j ≠ i → h'.server.files j = h.server.files j ∧ h'.names j = h.names j

theorem step_cases (h : VfsHistory) (r : VfsRequest) :
    (¬ h.server.Admits r.cap r.size ∧ h.step r = h) ∨
    (h.server.Admits r.cap r.size ∧ ∃ i, Added h (h.step r) i r.name) := by
  rcases vfsCreate_cases h.server r.name r.cap r.size r.color with
    ⟨hrefused, heq⟩ | ⟨hadm, i, file, hfree, hname, hvalid, heq⟩
  · have hnot : ¬ h.Accepts r := by
      rw [Accepts, heq]
      show ¬ (-1 : Int) = 0
      decide
    refine Or.inl ⟨hrefused, ?_⟩
    rw [step, if_neg hnot, heq]
  · have hacc : h.Accepts r := by rw [Accepts, heq]
    have hstep : h.step r =
        { server := { h.server with files := Function.update h.server.files i file }
          names := Function.update h.names i r.name } := by
      rw [step, if_pos hacc, heq, hfree]
    obtain ⟨hlt, hempty⟩ := VfsServer.freeFile_spec hfree
    have hnot : ¬ h.server.ValidFile i := fun hv => Bool.false_ne_true (hempty.symm.trans hv.2)
    refine Or.inr ⟨hadm, i, hlt, hnot, ?_, ?_, ?_, fun j hj => ?_⟩
    · rw [hstep]
    · rw [hstep]
      simp only [Function.update_self]
      exact ⟨hname, hvalid⟩
    · rw [hstep]
      exact Function.update_self ..
    · rw [hstep]
      exact ⟨Function.update_of_ne hj .., Function.update_of_ne hj ..⟩

theorem Added.validFile_iff {i : Nat} {name : CString} (hadd : Added h h' i name) (j : Nat) :
    h'.server.ValidFile j ↔ j = i ∨ h.server.ValidFile j := by
  by_cases hj : j = i
  · subst hj
    exact iff_of_true ⟨hadd.lt, hadd.file.2⟩ (Or.inl rfl)
  · rw [VfsServer.ValidFile, VfsServer.ValidFile, (hadd.other j hj).1]
    simp [hj]

/-- A valid entry whose field holds its name answers to that name and to no other. -/
theorem strcmp_stored {i : Nat} (hname : (h.server.files i).name = (h.names i).strncpy 32)
    (hlen : (h.names i).bytes.length < 32) (name : CString) :
    ∃ o, CString.strcmp (h.server.files i).name name.terminated = some o ∧
      (o = .eq ↔ h.names i = name) := by
  rw [hname]
  exact CString.strcmp_strncpy _ name hlen

theorem Inv.differs (hinv : h.Inv) {i : Nat} (hi : h.server.ValidFile i) {name : CString}
    (hne : h.names i ≠ name) : h.server.Differs i name := by
  obtain ⟨hname, hlen⟩ := hinv.stored i hi
  obtain ⟨o, heq, hiff⟩ := strcmp_stored hname hlen name
  exact ⟨o, heq, fun ho => hne (hiff.mp ho)⟩

theorem Inv.answers_iff (hinv : h.Inv) {i : Nat} {name : CString} :
    h.server.Answers i name ↔ h.server.ValidFile i ∧ h.names i = name := by
  refine and_congr_right fun hi => ?_
  obtain ⟨hname, hlen⟩ := hinv.stored i hi
  obtain ⟨o, heq, hiff⟩ := strcmp_stored hname hlen name
  rw [heq, ← hiff]
  exact ⟨Option.some.inj, congrArg some⟩

theorem Inv.namesIdentify (hinv : h.Inv) : h.NamesIdentify := by
  obtain ⟨fd, hfd⟩ := hinv.fd
  refine ⟨fun i hi => ?_, fun i j name hi hj => ?_⟩
  · refine VfsServer.opens_of_answers hfd (hinv.answers_iff.mpr ⟨hi, rfl⟩) fun j hj hne => ?_
    exact hinv.differs hj fun hsame => hne (hinv.apart j i hj hi hsame)
  · obtain ⟨hvi, hni⟩ := hinv.answers_iff.mp hi
    obtain ⟨hvj, hnj⟩ := hinv.answers_iff.mp hj
    exact hinv.apart i j hvi hvj (hni.trans hnj.symm)

theorem Inv.added (hinv : h.Inv) {i : Nat} {name : CString} (hadd : Added h h' i name)
    (hlen : name.bytes.length < 32) (hfresh : ∀ j, h.server.ValidFile j → h.names j ≠ name) :
    h'.Inv := by
  have hold : ∀ j, h.server.ValidFile j → j ≠ i := fun j hj heq => hadd.free (heq ▸ hj)
  refine ⟨?_, fun j hj => ?_, fun j k hj hk hsame => ?_⟩
  · obtain ⟨fd, hfd⟩ := hinv.fd
    refine ⟨fd, ?_⟩
    rw [VfsServer.freeFd, hadd.fds]
    exact hfd
  · rcases (hadd.validFile_iff j).mp hj with rfl | hj
    · rw [hadd.new]
      exact ⟨hadd.file.1, hlen⟩
    · rw [(hadd.other j (hold j hj)).1, (hadd.other j (hold j hj)).2]
      exact hinv.stored j hj
  · rcases (hadd.validFile_iff j).mp hj with rfl | hj
    · rcases (hadd.validFile_iff k).mp hk with rfl | hk
      · rfl
      · rw [hadd.new, (hadd.other k (hold k hk)).2] at hsame
        exact absurd hsame.symm (hfresh k hk)
    · rw [(hadd.other j (hold j hj)).2] at hsame
      rcases (hadd.validFile_iff k).mp hk with rfl | hk
      · rw [hadd.new] at hsame
        exact absurd hsame (hfresh j hj)
      · rw [(hadd.other k (hold k hk)).2] at hsame
        exact hinv.apart j k hj hk hsame

/-- A name without room for its terminator, or one that is in use, breaks the property
at once. -/
theorem Inv.fresh_of_added (hinv : h.Inv) {i : Nat} {name : CString} (hadd : Added h h' i name)
    (hafter : h'.NamesIdentify) :
    name.bytes.length < 32 ∧ ∀ j, h.server.ValidFile j → h.names j ≠ name := by
  have hnew : h'.server.ValidFile i := (hadd.validFile_iff i).mpr (Or.inl rfl)
  have hold : ∀ j, h.server.ValidFile j → j ≠ i := fun j hj heq => hadd.free (heq ▸ hj)
  have hlen : name.bytes.length < 32 := by
    by_contra hlong
    have hnone : CString.strcmp (h'.server.files i).name name.terminated = none := by
      rw [hadd.file.1]
      exact name.strcmp_strncpy_of_ge (Nat.not_lt.mp hlong)
    refine VfsServer.not_opens_of_undefined hnew hnone (fun j hj hne => ?_)
      (hadd.new ▸ hafter.opens i hnew)
    have hj' := ((hadd.validFile_iff j).mp hj).resolve_left hne
    rw [VfsServer.Differs, (hadd.other j hne).1]
    refine hinv.differs hj' fun heq => hlong ?_
    rw [← heq]
    exact (hinv.stored j hj').2
  refine ⟨hlen, fun j hj heq => hold j hj (hafter.unique j i name ?_ ?_)⟩
  · refine ⟨(hadd.validFile_iff j).mpr (Or.inr hj), ?_⟩
    rw [(hadd.other j (hold j hj)).1]
    exact (hinv.answers_iff.mpr ⟨hj, heq⟩).2
  · obtain ⟨o, ho, hiff⟩ := strcmp_stored (h := h') (i := i) (hadd.new ▸ hadd.file.1)
      (hadd.new ▸ hlen) name
    exact ⟨hnew, by rw [ho, hiff.mpr hadd.new]⟩

theorem start_inv {fds : Nat → VfsFd} (hfd : ∃ fd, fd < maxFd ∧ (fds fd).valid = false) :
    (start fds).Inv := by
  have hnone : ∀ i, ¬ (start fds).server.ValidFile i := fun i hi => Bool.false_ne_true hi.2
  refine ⟨?_, fun i hi => absurd hi (hnone i), fun i j hi => absurd hi (hnone i)⟩
  obtain ⟨fd, hlt, hfree⟩ := hfd
  refine Option.isSome_iff_exists.mp ?_
  rw [VfsServer.freeFd, List.find?_isSome]
  exact ⟨fd, List.mem_range.mpr hlt, by simp [start, hfree]⟩

end VfsHistory

/-- With a free descriptor, names identify files all along a run of `vfs_create` exactly
when every name that passes its checks has at most 31 bytes and is not yet the name of a
file. -/
theorem vfs_names_identify_iff {fds : Nat → VfsFd}
    (hfd : ∃ fd, fd < maxFd ∧ (fds fd).valid = false) (calls : List VfsRequest) :
    (∀ done, done <+: calls →
      (Run.exec VfsHistory.step (VfsHistory.start fds) done).NamesIdentify) ↔
    Run.Guarded VfsHistory.step VfsHistory.FreshName (VfsHistory.start fds) calls := by
  apply Run.exec_forall_prefix_iff_of_inv VfsHistory.Inv
  · exact fun h hinv => hinv.namesIdentify
  · intro h r hinv hfresh
    rcases h.step_cases r with ⟨-, heq⟩ | ⟨hadm, i, hadd⟩
    · rw [heq]
      exact hinv
    · obtain ⟨hlen, hunused⟩ := hfresh hadm
      exact hinv.added hadd hlen hunused
  · intro h r hinv hafter hadm
    rcases h.step_cases r with ⟨hnot, -⟩ | ⟨-, i, hadd⟩
    · exact absurd hadm hnot
    · exact hinv.fresh_of_added hadd hafter
  · exact VfsHistory.start_inv hfd

/-- Descriptors that are all free. -/
def closedFds : Nat → VfsFd := fun _ => { fileId := 0, offset := 0, rights := 0, valid := false }

/-- A file as the test program creates it. -/
def testFile (name : CString) : VfsRequest :=
  { name := name, cap := 0x10000000, size := 4096, color := 0 }

def nameA : CString := ⟨[97], by decide⟩

def nameB : CString := ⟨[98], by decide⟩

def longName : CString := ⟨List.replicate 32 97, by decide⟩

theorem vfs_names_identify_two_files :
    (closedFds 0).valid = false ∧
      (Run.exec VfsHistory.step (VfsHistory.start closedFds)
        [testFile nameA, testFile nameB]).NamesIdentify := by
  refine ⟨rfl, (vfs_names_identify_iff ⟨0, by decide, rfl⟩ [testFile nameA, testFile nameB]).mpr
    ⟨fun _ => ⟨by decide, fun i hi => ?_⟩, fun _ => ⟨by decide, fun i hi => ?_⟩, trivial⟩ _
    (List.prefix_refl _)⟩
  · exact absurd hi.2 Bool.false_ne_true
  · have hsecond : ∀ j, j < maxFiles →
        (((VfsHistory.start closedFds).step (testFile nameA)).server.files j).valid = true →
        ((VfsHistory.start closedFds).step (testFile nameA)).names j ≠ nameB := by
      decide +kernel
    exact hsecond i hi.1 hi.2

/-- Two files of one name are both created, and the name opens the first.  A name of 32
bytes is created, and opening it reads past the field. -/
theorem vfs_names_shared :
    let twice := Run.exec VfsHistory.step (VfsHistory.start closedFds)
      [testFile nameA, testFile nameA]
    let long := Run.exec VfsHistory.step (VfsHistory.start closedFds) [testFile longName]
    twice.server.Answers 0 nameA ∧ twice.server.Answers 1 nameA ∧
      ((vfsOpen twice.server nameA 3).map fun r => (r.1, (r.2.fds 0).fileId)) = some (0, 0) ∧
      ¬ twice.NamesIdentify ∧
      long.server.ValidFile 0 ∧ (vfsOpen long.server longName 3).isNone = true := by
  intro twice long
  have hfirst : twice.server.Answers 0 nameA :=
    ⟨⟨by decide, by decide +kernel⟩, by decide +kernel⟩
  have hsecond : twice.server.Answers 1 nameA :=
    ⟨⟨by decide, by decide +kernel⟩, by decide +kernel⟩
  refine ⟨hfirst, hsecond, by decide +kernel, fun h => ?_, ⟨by decide, by decide +kernel⟩,
    by decide +kernel⟩
  exact absurd (h.unique 0 1 nameA hfirst hsecond) (by decide)

end Moonlight
