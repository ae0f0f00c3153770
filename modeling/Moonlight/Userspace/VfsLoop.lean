/-
The message loop of the VFS server.

A name comes in the first four words of a request, as an array of 32 bytes that need not
be terminated.  `vfs_server_run` creates and opens files; there is no request that closes
a descriptor or removes a file, so the two tables only grow.  A read request is answered
with the length that was asked for, and `vfs_read` is not called; it would find nothing,
since nothing ever sets `used`.

`vfs_server_refines_logs` says that the server is two logs: the names in the order in
which they were created, and the files in the order in which they were opened.
-/
import Moonlight.Kernel.Types
import Moonlight.Lib.Simulation
import Moonlight.Userspace.VfsServer

namespace Moonlight

/-! ### Requests -/

/-- The bytes of a word in memory, low byte first. -/
def wordBytes (w : UInt64) : List UInt8 :=
  (List.range 8).map fun i => (w >>> UInt64.ofNat (8 * i)).toUInt8

/-- The local array that `memcpy(name, msg.words, 32)` fills. -/
def nameField (msg : IpcMsg) : List UInt8 := (List.range 4).flatMap fun i => wordBytes (msg.words i)

theorem nameField_length (msg : IpcMsg) : (nameField msg).length = 32 := rfl

/-- `vfs_open` where the name is an array that need not be terminated. -/
def vfsOpenArray (s : VfsServer) (name : List UInt8) (rights : UInt32) : Option (Int × VfsServer) :=
  vfsOpenLoop s name rights (List.range maxFiles)

/-- The value of a length as an `int`. -/
def intOfLen (len : UInt64) : Int := len.toUInt32.toBitVec.toInt

/-- `vfs_read`: the result, the source and the length of the `memcpy`, and the server. -/
def vfsRead (s : VfsServer) (fd : Int) (len : UInt64) :
    Int × Option (UInt64 × UInt64) × VfsServer :=
  if fd < 0 ∨ fd ≥ maxFd ∨ (s.fds fd.toNat).valid = false then (-1, none, s)
  else
    let d := s.fds fd.toNat
    let f := s.files d.fileId.toNat
    let len :=
      if d.offset.toUInt64 + len > f.used.toUInt64 then (f.used - d.offset).toUInt64 else len
    if frameCapIsValid f.cap len = false then (-1, none, s)
    else if d.offset.toUInt64 + len > f.size.toUInt64 then (-1, none, s)
    else
      (intOfLen len, some (f.cap.toUInt64 + d.offset.toUInt64, len),
        { s with
          fds := Function.update s.fds fd.toNat { d with offset := d.offset + len.toUInt32 } })

/-- The answer is the request with its first word replaced. -/
def answer (msg : IpcMsg) (w : UInt64) : IpcMsg :=
  { msg with words := Function.update msg.words 0 w, length := 1 }

/-- One turn of `vfs_server_run`, with `none` when `strcmp` leaves an array. -/
def vfsServe (s : VfsServer) (msg : IpcMsg) : Option (Option IpcMsg × VfsServer) :=
  if msg.label = 1 then
    (vfsOpenArray s (nameField msg) (msg.words 4).toUInt32).map fun r =>
      (some (answer msg (UInt64.ofInt r.1)), r.2)
  else if msg.label = 2 then some (some (answer msg (msg.words 1)), s)
  else if msg.label = 3 then
    -- strncpy stops at the terminator or after 32 bytes, which is the whole array
    let r := vfsCreate s (CString.ofArray (nameField msg)) (msg.capPtrs 0) (msg.words 4).toUInt32
      (msg.words 5).toUInt16
    some (some (answer msg 0), r.2)
  else some (none, s)

/-! ### The two logs -/

/-- What the server is for: the names of the files in the order of their creation, and for
every descriptor the file and the rights it was opened with. -/
structure FileLog where
  names : List CString
  opened : List (Nat × UInt32)

namespace FileLog

def empty : FileLog := { names := [], opened := [] }

/-- The first file of the name is opened at the end of the log of descriptors. -/
def openFile (l : FileLog) (name : CString) (rights : UInt32) : Int × FileLog :=
  if name ∈ l.names ∧ l.opened.length < maxFd then
    (l.opened.length, { l with opened := l.opened ++ [(l.names.idxOf name, rights)] })
  else (-1, l)

def createFile (l : FileLog) (name : CString) (cap size : UInt32) : FileLog :=
  if l.names.length < maxFiles ∧ frameCapIsValid cap size.toUInt64 = true then
    { l with names := l.names ++ [name] }
  else l

def serve (l : FileLog) (msg : IpcMsg) : Option IpcMsg × FileLog :=
  if msg.label = 1 then
    let r := l.openFile (CString.ofArray (nameField msg)) (msg.words 4).toUInt32
    (some (answer msg (UInt64.ofInt r.1)), r.2)
  else if msg.label = 2 then (some (answer msg (msg.words 1)), l)
  else if msg.label = 3 then
    (some (answer msg 0),
      l.createFile (CString.ofArray (nameField msg)) (msg.capPtrs 0) (msg.words 4).toUInt32)
  else (none, l)

end FileLog

/-! ### The server keeps the logs -/

/-- The file is the one the log has under the name. -/
structure StoredFile (f : VfsFile) (name : CString) : Prop where
  valid : f.valid = true
  field : f.name = name.strncpy 32
  short : name.bytes.length < 32
  used : f.used = 0
  cap : f.cap ≠ 0

/-- The tables hold the logs, and nothing behind them. -/
structure Logged (s : VfsServer) (l : FileLog) : Prop where
  fewFiles : l.names.length ≤ maxFiles
  fewFds : l.opened.length ≤ maxFd
  file : ∀ i (h : i < l.names.length), StoredFile (s.files i) l.names[i]
  noFile : ∀ i, l.names.length ≤ i → (s.files i).valid = false
  fd : ∀ j (h : j < l.opened.length), s.fds j =
    { fileId := UInt32.ofNat l.opened[j].1, offset := 0, rights := l.opened[j].2, valid := true }
  names : ∀ p ∈ l.opened, p.1 < l.names.length
  noFd : ∀ j, l.opened.length ≤ j → (s.fds j).valid = false

variable {s s' : VfsServer} {l : FileLog}

/-- The first entry of a table whose first `n` entries are the ones in use. -/
theorem find_first_free (valid : Nat → Bool) {n size : Nat} (hused : ∀ i, i < n → valid i = true)
    (hfree : ∀ i, n ≤ i → valid i = false) (hn : n ≤ size) :
    (List.range size).find? (fun i => !valid i) = if n < size then some n else none := by
  split_ifs with hlt
  · refine List.find?_range_eq_some.mpr ⟨?_, List.mem_range.mpr hlt, fun j hj => ?_⟩
    · rw [hfree n (Nat.le_refl n)]
      rfl
    · rw [hused j hj]
      rfl
  · refine List.find?_range_eq_none.mpr fun i hi => ?_
    rw [hused i (by omega)]
    rfl

namespace Logged

theorem freeFile (h : Logged s l) :
    s.freeFile = if l.names.length < maxFiles then some l.names.length else none :=
  find_first_free (fun i => (s.files i).valid) (fun i hi => (h.file i hi).valid) h.noFile h.fewFiles

theorem freeFd (h : Logged s l) :
    s.freeFd = if l.opened.length < maxFd then some l.opened.length else none :=
  find_first_free (fun j => (s.fds j).valid) (fun j hj => by rw [h.fd j hj]) h.noFd h.fewFds

/-- The name of a file in use compares as the log says. -/
theorem strcmp (h : Logged s l) {i : Nat} (hi : i < l.names.length) (name : CString) :
    ∃ o, CString.strcmp (s.files i).name name.terminated = some o ∧
      (o = .eq ↔ l.names[i] = name) := by
  rw [(h.file i hi).field]
  exact CString.strcmp_strncpy _ name (h.file i hi).short

theorem differs (h : Logged s l) {i : Nat} (hv : (s.files i).valid = true) {name : CString}
    (hne : ∀ hi : i < l.names.length, l.names[i] ≠ name) : s.Differs i name := by
  by_cases hi : i < l.names.length
  · obtain ⟨o, heq, hiff⟩ := h.strcmp hi name
    exact ⟨o, heq, fun ho => hne hi (hiff.mp ho)⟩
  · exact absurd (hv.symm.trans (h.noFile i (Nat.not_lt.mp hi))) (by decide)

end Logged

/-! ### Opening -/

/-- Names that compare alike with every file are opened alike. -/
theorem vfsOpenLoop_congr {name name' : List UInt8}
    (h : ∀ i, CString.strcmp (s.files i).name name = CString.strcmp (s.files i).name name')
    (rights : UInt32) (is : List Nat) :
    vfsOpenLoop s name rights is = vfsOpenLoop s name' rights is := by
  induction is with
  | nil => rfl
  | cons i is ih => rw [vfsOpenLoop, vfsOpenLoop, h i, ih]

theorem vfsOpenArray_eq {name : List UInt8} (h : 0 ∈ name) (rights : UInt32) :
    vfsOpenArray s name rights = vfsOpen s (CString.ofArray name) rights :=
  vfsOpenLoop_congr (fun i => CString.strcmp_ofArray (s.files i).name h) rights _

/-- Without a free descriptor the loop goes through all the entries. -/
theorem vfsOpenLoop_full {name : CString} (hfd : s.freeFd = none) (rights : UInt32) {is : List Nat}
    (hdefined : ∀ i ∈ is, (s.files i).valid = true →
      ∃ o, CString.strcmp (s.files i).name name.terminated = some o) :
    vfsOpenLoop s name.terminated rights is = some (-1, s) := by
  induction is with
  | nil => rfl
  | cons i is ih =>
    have hrest := ih fun j hj => hdefined j (List.mem_cons_of_mem i hj)
    rw [vfsOpenLoop]
    by_cases hv : (s.files i).valid = true
    · obtain ⟨o, ho⟩ := hdefined i List.mem_cons_self hv
      rw [if_pos hv, ho]
      cases o with
      | lt => exact hrest
      | eq =>
        rw [hfd]
        exact hrest
      | gt => exact hrest
    · rw [if_neg hv]
      exact hrest

/-- The server with one more descriptor at the end. -/
def VfsServer.openAt (s : VfsServer) (fd i : Nat) (rights : UInt32) : VfsServer :=
  { s with
    fds := Function.update s.fds fd
      { fileId := UInt32.ofNat i, offset := 0, rights := rights, valid := true } }

theorem Logged.openAt (h : Logged s l) {i : Nat} (hi : i < l.names.length)
    (hroom : l.opened.length < maxFd) (rights : UInt32) :
    Logged (s.openAt l.opened.length i rights) { l with opened := l.opened ++ [(i, rights)] } where
  fewFiles := h.fewFiles
  fewFds := by
    rw [List.length_append]
    exact hroom
  file := h.file
  noFile := h.noFile
  fd := by
    intro j hj
    show Function.update s.fds l.opened.length _ j = _
    rw [List.length_append, List.length_singleton] at hj
    by_cases hlast : j = l.opened.length
    · subst hlast
      simp only [Function.update_self, List.getElem_concat_length]
    · have hlt : j < l.opened.length := by omega
      simp only [Function.update_of_ne hlast, List.getElem_append_left hlt]
      exact h.fd j hlt
  names := by
    intro p hp
    rcases List.mem_append.mp hp with hp | hp
    · exact h.names p hp
    · rw [List.mem_singleton.mp hp]
      exact hi
  noFd := by
    intro j hj
    rw [List.length_append, List.length_singleton] at hj
    show (Function.update s.fds l.opened.length _ j).valid = false
    rw [Function.update_of_ne (by omega)]
    exact h.noFd j (by omega)

theorem range_split {i n : Nat} (h : i < n) :
    List.range n = List.range i ++ (i :: (List.range n).drop (i + 1)) := by
  have hlt : i < (List.range n).length := by rw [List.length_range]; exact h
  have hdrop := List.drop_eq_getElem_cons hlt
  rw [List.getElem_range] at hdrop
  have hboth := List.take_append_drop i (List.range n)
  rw [List.take_range, Nat.min_eq_left (Nat.le_of_lt h), hdrop] at hboth
  exact hboth.symm

/-- `vfs_open` answers as the log does. -/
theorem Logged.opens (h : Logged s l) (name : CString) (rights : UInt32) :
    ∃ s', vfsOpen s name rights = some ((l.openFile name rights).1, s') ∧
      Logged s' (l.openFile name rights).2 := by
  by_cases hmem : name ∈ l.names
  swap
  · -- no entry compares equal
    have hdiffers : ∀ j ∈ List.range maxFiles, (s.files j).valid = true → s.Differs j name :=
      fun j _ hv => h.differs hv fun hj heq => hmem (heq ▸ List.getElem_mem hj)
    have hskip := vfsOpenLoop_skip rights [] hdiffers
    rw [List.append_nil] at hskip
    rw [FileLog.openFile, if_neg fun hboth => hmem hboth.1]
    exact ⟨s, hskip, h⟩
  have hfd := h.freeFd
  by_cases hroom : l.opened.length < maxFd
  swap
  · rw [if_neg hroom] at hfd
    rw [FileLog.openFile, if_neg fun hboth => hroom hboth.2]
    refine ⟨s, vfsOpenLoop_full hfd rights fun i _ hv => ?_, h⟩
    by_cases hi : i < l.names.length
    · obtain ⟨o, ho, -⟩ := h.strcmp hi name
      exact ⟨o, ho⟩
    · exact absurd (hv.symm.trans (h.noFile i (Nat.not_lt.mp hi))) (by decide)
  -- the loop stops at the first file of the name
  have hi : l.names.idxOf name < l.names.length := List.idxOf_lt_length_of_mem hmem
  have hfirst : vfsOpen s name rights = vfsOpenLoop s name.terminated rights
      (l.names.idxOf name :: (List.range maxFiles).drop (l.names.idxOf name + 1)) := by
    have hlt : l.names.idxOf name < maxFiles := Nat.lt_of_lt_of_le hi h.fewFiles
    rw [vfsOpen]
    nth_rewrite 1 [range_split hlt]
    refine vfsOpenLoop_skip rights _ fun j hj hv => h.differs hv fun hj' heq => ?_
    have hbefore := List.not_of_lt_findIdx (List.mem_range.mp hj)
    rw [heq, beq_self_eq_true] at hbefore
    cases hbefore
  have hequal : CString.strcmp (s.files (l.names.idxOf name)).name name.terminated = some .eq := by
    obtain ⟨o, ho, hiff⟩ := h.strcmp hi name
    rw [ho, hiff.mpr (List.getElem_idxOf hi)]
  rw [if_pos hroom] at hfd
  rw [FileLog.openFile, if_pos ⟨hmem, hroom⟩, hfirst, vfsOpenLoop, if_pos (h.file _ hi).valid, hequal,
    hfd]
  exact ⟨_, rfl, h.openAt hi hroom rights⟩

/-! ### Creating -/

theorem Logged.addFile (h : Logged s l) (hroom : l.names.length < maxFiles) {f : VfsFile}
    {name : CString} (hf : StoredFile f name) :
    Logged { s with files := Function.update s.files l.names.length f }
      { l with names := l.names ++ [name] } where
  fewFiles := by
    rw [List.length_append]
    exact hroom
  fewFds := h.fewFds
  file := by
    intro i hi
    rw [List.length_append, List.length_singleton] at hi
    by_cases hlast : i = l.names.length
    · subst hlast
      simp only [Function.update_self, List.getElem_concat_length]
      exact hf
    · have hlt : i < l.names.length := by omega
      simp only [Function.update_of_ne hlast, List.getElem_append_left hlt]
      exact h.file i hlt
  noFile := by
    intro i hi
    rw [List.length_append, List.length_singleton] at hi
    show (Function.update s.files l.names.length f i).valid = false
    rw [Function.update_of_ne (by omega)]
    exact h.noFile i (by omega)
  fd := h.fd
  names := by
    intro p hp
    rw [List.length_append]
    exact Nat.lt_succ_of_lt (h.names p hp)
  noFd := h.noFd

theorem Logged.creates (h : Logged s l) {name : CString} (hname : name.bytes.length < 32)
    (cap size : UInt32) (color : UInt16) :
    Logged (vfsCreate s name cap size color).2 (l.createFile name cap size) := by
  have hfree := h.freeFile
  unfold vfsCreate FileLog.createFile
  by_cases hroom : l.names.length < maxFiles
  swap
  · rw [if_neg hroom] at hfree
    rw [hfree, if_neg fun hboth => hroom hboth.1]
    exact h
  rw [if_pos hroom] at hfree
  rw [hfree]
  simp only
  cases hcap : frameCapIsValid cap size.toUInt64 with
  | false =>
    rw [if_pos rfl, if_neg fun hboth => Bool.false_ne_true hboth.2]
    exact h
  | true =>
    rw [if_neg (by decide), if_pos ⟨hroom, rfl⟩]
    refine h.addFile hroom ⟨rfl, rfl, hname, rfl, fun hzero => ?_⟩
    rw [show cap = 0 from hzero] at hcap
    cases hcap

/-! ### Reading -/

/-- No file has anything to read. -/
theorem StoredFile.read {f : VfsFile} {name : CString} (h : StoredFile f name) (len : UInt64) :
    (if (0 : UInt32).toUInt64 + len > f.used.toUInt64 then (f.used - 0).toUInt64 else len) = 0 := by
  rw [h.used]
  split_ifs with hlen
  · rfl
  · have hzero : ¬ 0 < len := by
      rw [← UInt64.zero_add len]
      exact hlen
    exact UInt64.le_zero_iff.mp (UInt64.not_lt.mp hzero)

theorem vfsRead_empty {j : Nat} (hj : j < maxFd) {d : VfsFd} (hd : s.fds j = d)
    (hvalid : d.valid = true) (hoffset : d.offset = 0) {name : CString}
    (hf : StoredFile (s.files d.fileId.toNat) name) (len : UInt64) :
    vfsRead s j len =
      (0, some ((s.files d.fileId.toNat).cap.toUInt64 + (0 : UInt32).toUInt64, 0), s) := by
  have hopen : ¬ ((j : Int) < 0 ∨ (j : Int) ≥ maxFd ∨ (s.fds (j : Int).toNat).valid = false) := by
    rw [Int.toNat_natCast, hd, hvalid]
    simp only [Bool.true_eq_false, or_false]
    omega
  have hcap : frameCapIsValid (s.files d.fileId.toNat).cap 0 = true := by
    simp [frameCapIsValid, hf.cap]
  have hsize : ¬ (0 : UInt32).toUInt64 + 0 > (s.files d.fileId.toNat).size.toUInt64 :=
    UInt64.not_lt.mpr UInt64.zero_le
  have hsame :
      Function.update s.fds j { d with offset := d.offset + (0 : UInt64).toUInt32 } = s.fds := by
    rw [show ({ d with offset := d.offset + (0 : UInt64).toUInt32 } : VfsFd) = d from by
      rw [show (0 : UInt64).toUInt32 = 0 from rfl, UInt32.add_zero], ← hd, Function.update_eq_self]
  rw [vfsRead, if_neg hopen]
  simp only [Int.toNat_natCast, hd, hoffset, hf.read, hcap, Bool.true_eq_false, if_false,
    if_neg hsize]
  rw [← hoffset, hsame]
  rfl

/-- A read of an open descriptor returns zero and copies nothing, any other one fails; the
server stays as it is. -/
theorem Logged.read (h : Logged s l) (fd : Int) (len : UInt64) :
    if 0 ≤ fd ∧ fd < l.opened.length then ∃ src, vfsRead s fd len = (0, some (src, 0), s)
    else vfsRead s fd len = (-1, none, s) := by
  split_ifs with hfd
  · obtain ⟨j, rfl⟩ := Int.eq_ofNat_of_zero_le hfd.1
    have hj : j < l.opened.length := Int.ofNat_lt.mp hfd.2
    have hi := h.names _ (List.getElem_mem hj)
    have hfile : (UInt32.ofNat l.opened[j].1).toNat = l.opened[j].1 := by
      have hsmall : l.names.length ≤ 64 := h.fewFiles
      rw [UInt32.toNat_ofNat']
      exact Nat.mod_eq_of_lt (by omega)
    rw [← hfile] at hi
    have hstored := h.file _ hi
    exact ⟨_, vfsRead_empty (Nat.lt_of_lt_of_le hj h.fewFds) (h.fd j hj) rfl rfl hstored len⟩
  · rw [vfsRead, if_pos]
    by_cases hneg : fd < 0
    · exact Or.inl hneg
    · refine Or.inr ?_
      obtain ⟨j, rfl⟩ := Int.eq_ofNat_of_zero_le (Int.not_lt.mp hneg)
      by_cases hj : (j : Int) ≥ maxFd
      · exact Or.inl hj
      · exact Or.inr (h.noFd j (by omega))

/-! ### Runs -/

/-- The server with the answers it has sent; a request with an unknown label gets none. -/
structure VfsTrace where
  server : VfsServer
  answers : List (Option IpcMsg)

def VfsTrace.step (t : VfsTrace) (msg : IpcMsg) : Option VfsTrace :=
  (vfsServe t.server msg).map fun r => { server := r.2, answers := t.answers ++ [r.1] }

structure LogTrace where
  log : FileLog
  answers : List (Option IpcMsg)

def LogTrace.step (t : LogTrace) (msg : IpcMsg) : LogTrace :=
  { log := (t.log.serve msg).2, answers := t.answers ++ [(t.log.serve msg).1] }

/-- The static variables at the start. -/
def vfsInit : VfsServer :=
  { files := fun _ => VfsFile.zero
    fds := fun _ => { fileId := 0, offset := 0, rights := 0, valid := false } }

theorem logged_init : Logged vfsInit FileLog.empty where
  fewFiles := Nat.zero_le _
  fewFds := Nat.zero_le _
  file := fun i hi => absurd hi (Nat.not_lt_zero i)
  noFile := fun _ _ => rfl
  fd := fun j hj => absurd hj (Nat.not_lt_zero j)
  names := fun _ hp => absurd hp List.not_mem_nil
  noFd := fun _ _ => rfl

/-- A request that brings a name brings its terminator. -/
def Terminated (msg : IpcMsg) : Prop := msg.label = 1 ∨ msg.label = 3 → 0 ∈ nameField msg

theorem Logged.serve (h : Logged s l) {msg : IpcMsg} (hmsg : Terminated msg) :
    ∃ s', vfsServe s msg = some ((l.serve msg).1, s') ∧ Logged s' (l.serve msg).2 := by
  unfold vfsServe FileLog.serve
  by_cases hopen : msg.label = 1
  · have hname : 0 ∈ nameField msg := hmsg (Or.inl hopen)
    obtain ⟨s', heq, hs'⟩ := h.opens (CString.ofArray (nameField msg)) (msg.words 4).toUInt32
    rw [if_pos hopen, if_pos hopen, vfsOpenArray_eq hname, heq]
    exact ⟨s', rfl, hs'⟩
  rw [if_neg hopen, if_neg hopen]
  by_cases hread : msg.label = 2
  · rw [if_pos hread, if_pos hread]
    exact ⟨s, rfl, h⟩
  rw [if_neg hread, if_neg hread]
  by_cases hcreate : msg.label = 3
  · rw [if_pos hcreate, if_pos hcreate]
    refine ⟨_, rfl, h.creates ?_ _ _ _⟩
    have hlen := (CString.ofArray_split (hmsg (Or.inr hcreate))).1
    rw [nameField_length] at hlen
    exact hlen
  · rw [if_neg hcreate, if_neg hcreate]
    exact ⟨s, rfl, h⟩

/-- The server keeps the logs and has sent the same answers. -/
structure Follows (t : VfsTrace) (u : LogTrace) : Prop where
  logged : Logged t.server u.log
  answers : t.answers = u.answers

theorem follows_simulation : Run.Simulation VfsTrace.step LogTrace.step Terminated Follows where
  step := by
    intro t u msg h hmsg
    obtain ⟨s', heq, hs'⟩ := h.logged.serve hmsg
    refine ⟨{ server := s', answers := t.answers ++ [(u.log.serve msg).1] }, ?_, hs', ?_⟩
    · rw [VfsTrace.step, heq]
      rfl
    · rw [h.answers]
      rfl

/-- For every sequence of requests whose names are terminated the server goes on and
answers as the two logs do: files and descriptors are numbered in the order in which they
came, and none is ever given back.  A read through any descriptor that was handed out
returns zero. -/
theorem vfs_server_refines_logs {msgs : List IpcMsg} (hmsgs : ∀ msg ∈ msgs, Terminated msg) :
    ∃ t, Run.execM VfsTrace.step { server := vfsInit, answers := [] } msgs = some t ∧
      t.answers = (Run.exec LogTrace.step { log := FileLog.empty, answers := [] } msgs).answers ∧
      ∀ (fd : Int) (len : UInt64), if 0 ≤ fd ∧ fd <
            (Run.exec LogTrace.step { log := FileLog.empty, answers := [] } msgs).log.opened.length
          then ∃ src, vfsRead t.server fd len = (0, some (src, 0), t.server)
          else vfsRead t.server fd len = (-1, none, t.server) := by
  have hstart : Follows { server := vfsInit, answers := [] }
      { log := FileLog.empty, answers := [] } := ⟨logged_init, rfl⟩
  obtain ⟨t, hrun, hend⟩ := follows_simulation.run hstart hmsgs
  exact ⟨t, hrun, hend.answers, hend.logged.read⟩

/-- A request with the name `a` and its fifth word. -/
def fileRequest (label : UInt32) (w : UInt64) : IpcMsg :=
  { IpcMsg.zero with
    label := label
    words := fun i => if i = 0 then 0x61 else if i = 4 then w else 0
    capPtrs := fun _ => 0x1000 }

/-- A file of 4096 bytes is created and opened, and a read of 100 bytes returns zero. -/
theorem vfs_server_refines_logs_file :
    ∃ t, Run.execM VfsTrace.step { server := vfsInit, answers := [] }
        [fileRequest 3 4096, fileRequest 1 1] = some t ∧
      t.answers.length = 2 ∧ ∃ src, vfsRead t.server 0 100 = (0, some (src, 0), t.server) := by
  have hmsgs : ∀ msg ∈ [fileRequest 3 4096, fileRequest 1 1], Terminated msg := by
    intro msg hmsg _
    rcases List.mem_cons.mp hmsg with rfl | hmsg
    · decide
    · rw [List.mem_singleton.mp hmsg]
      decide
  obtain ⟨t, hrun, hanswers, hread⟩ := vfs_server_refines_logs hmsgs
  have hopened : (Run.exec LogTrace.step { log := FileLog.empty, answers := [] }
      [fileRequest 3 4096, fileRequest 1 1]).log.opened.length = 1 := by decide
  refine ⟨t, hrun, by rw [hanswers]; rfl, ?_⟩
  have hzero := hread 0 100
  rw [hopened, if_pos (by decide)] at hzero
  exact hzero

end Moonlight
