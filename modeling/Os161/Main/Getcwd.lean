import Os161.Main.FileRead

set_option autoImplicit false

/-!
# The bytes `__getcwd` delivers

`kern/syscall/getcwd_syscall.c`, with its data. The user's buffer is fetched as a string into
`tempbuf`, an array of `__PATH_MAX` bytes, and `vfs_getcwd` then puts the name of the directory
into `tempbuf` through a uio as long as the user says. Nothing goes back to the user.
-/

namespace Os161.Main

open Os161.Lib.Program
open Os161.Syscall
open Os161.Vfs

/-- `__PATH_MAX`. -/
def pathMax : Nat := 1024

/-- `ENOENT`. -/
def enoent : Int := 19

/-- A current directory, by what is asked of it. Names have no terminator here. -/
structure Cwd where
  /-- `FSOP_GETVOLNAME`. -/
  volname : Option (List UInt8)
  /-- `vfs_getdevname` of its file system. -/
  devname : List UInt8
  /-- `VOP_NAMEFILE`: an error number, or the path that it moves. -/
  namefile : Except ErrCode (List UInt8)

/-- The volume or device name and a colon. -/
def Cwd.prefixed (cwd : Cwd) : List UInt8 := cwd.volname.getD cwd.devname ++ [58]

/-- A uio on a kernel buffer: what has been moved to the buffer, and `uio_resid`. -/
structure KernelUio where
  moved : List UInt8
  resid : Nat

/-- `uio_kinit`. -/
def uioKinit (len : Nat) : KernelUio := { moved := [], resid := len }

/-- `uiomove` on a kernel buffer. -/
def uiomove (ptr : List UInt8) (uio : KernelUio) : KernelUio :=
  { moved := uio.moved ++ ptr.take uio.resid, resid := uio.resid - ptr.length }

/-- `vfs_getcwd`. -/
def vfsGetcwd (cwd : Option Cwd) (uio : KernelUio) : Int × KernelUio :=
  match cwd with
  | none => (enoent, uio)
  | some cwd =>
      let uio := uiomove (cwd.volname.getD cwd.devname) uio
      let uio := uiomove [58] uio
      match cwd.namefile with
      | .error e => (e.val, uio)
      | .ok path => (0, uiomove path uio)

/-- What `__getcwd` does with its data. -/
structure GetcwdRun where
  copyinstr : Int
  vfsGetcwd : Int
  uioResid : Nat
  /-- The bytes of `tempbuf` that `copyinstr` writes. -/
  fetched : List UInt8
  /-- The bytes of `tempbuf` that `vfs_getcwd` writes. -/
  moved : List UInt8
  mem : UserMem

/-- `__getcwd`; a buffer at the address `0` is `NULL`. -/
def getcwdRun (cwd : Option Cwd) (buf buflen : UInt32) (u : UserMem) : GetcwdRun :=
  if buf = 0 then
    { copyinstr := 0, vfsGetcwd := 0, uioResid := 0, fetched := [], moved := [], mem := u }
  else
    let (bs, result) := copyinstr u buf (.ofNat pathMax)
    if result ≠ 0 then
      { copyinstr := result, vfsGetcwd := 0, uioResid := 0, fetched := bs, moved := [], mem := u }
    else
      let (result', uio) := vfsGetcwd cwd (uioKinit buflen.toNat)
      { copyinstr := result, vfsGetcwd := result', uioResid := uio.resid, fetched := bs
        moved := uio.moved, mem := u }

/-- `__getcwd` as the caller sees it. -/
def Getcwd (cwd : Option Cwd) (buf buflen : UInt32) (u : UserMem) (s : Kernel) (ret : Int)
    (s' : Kernel) : Prop :=
  Runs (sysGetcwd (if buf = 0 then none else some buf.toNat) buflen.toNat
    (getcwdRun cwd buf buflen u).copyinstr (getcwdRun cwd buf buflen u).vfsGetcwd
    (getcwdRun cwd buf buflen u).uioResid) s ret s'

/-- `__getcwd` stays in `tempbuf`, and a value `k` that it returns without failing says that the
first `k` bytes of the buffer are those of the name. -/
structure DeliversName (cwd : Option Cwd) (buf buflen : UInt32) (u : UserMem) : Prop where
  fetched : (getcwdRun cwd buf buflen u).fetched.length ≤ pathMax
  moved : (getcwdRun cwd buf buflen u).moved.length ≤ pathMax
  delivers : ∀ s (k : Nat) s', Getcwd cwd buf buflen u s k s' → k ≤ buflen.toNat ∧
    ∃ dir path, cwd = some dir ∧ dir.namefile = .ok path ∧
      ∀ i < k, (getcwdRun cwd buf buflen u).mem (buf + .ofNat i) = (dir.prefixed ++ path)[i]?

/-- As much of the name as the user asks for fits in `tempbuf`, and when there is a name to
deliver, it is in the buffer already. -/
def Cwd.AlreadyIn (dir : Cwd) (buf buflen : UInt32) (u : UserMem) : Prop :=
  match dir.namefile with
  | .error _ => min buflen.toNat dir.prefixed.length ≤ pathMax
  | .ok path =>
      min buflen.toNat (dir.prefixed ++ path).length ≤ pathMax ∧
        ∀ i < min buflen.toNat (dir.prefixed ++ path).length,
          u (buf + .ofNat i) = (dir.prefixed ++ path)[i]?

/-! ## The uio -/

/-- What two moves do, one does. -/
theorem uiomove_uiomove (ptr ptr' : List UInt8) (uio : KernelUio) :
    uiomove ptr' (uiomove ptr uio) = uiomove (ptr ++ ptr') uio := by
  simp only [uiomove, List.take_append, List.append_assoc, List.length_append, Nat.sub_sub]

/-- The name is moved as far as the uio goes. -/
theorem vfsGetcwd_some (dir : Cwd) (uio : KernelUio) :
    vfsGetcwd (some dir) uio = match dir.namefile with
      | .error e => (e.val, uiomove dir.prefixed uio)
      | .ok path => (0, uiomove (dir.prefixed ++ path) uio) := by
  rw [vfsGetcwd]
  simp only [uiomove_uiomove, Cwd.prefixed]

theorem length_moved (ptr : List UInt8) (len : Nat) :
    (uiomove ptr (uioKinit len)).moved.length = min len ptr.length := List.length_take

/-- What is not left over of the uio has been moved. -/
theorem sub_resid (ptr : List UInt8) (len : Nat) :
    (len : Int) - (uiomove ptr (uioKinit len)).resid = (min len ptr.length : Nat) := by
  simp only [uiomove, uioKinit]
  omega

/-! ## The call -/

/-- `copyinstr` succeeds or returns a positive error number. -/
theorem copyinstr_nonneg (u : UserMem) (usersrc len : UInt32) :
    0 ≤ (copyinstr u usersrc len).2 := by
  rw [copyinstr]
  split
  · exact (Errno.code_pos _).le
  · split
    · exact le_rfl
    · exact (Errno.code_pos .EFAULT).le
    · dsimp only
      split_ifs <;> decide

section Returns

variable {s s' : Kernel} {b n resid : Nat} {ret : Int}

theorem ret_of_sysGetcwd {result result' : Int}
    (h : Runs (sysGetcwd (some b) n result result' resid) s ret s') :
    ret = if result ≠ 0 then -result else if result' ≠ 0 then -result' else n - resid := by
  rw [sysGetcwd] at h
  split_ifs at h ⊢ <;> simp at h <;> grind

theorem sysGetcwd_boot (b n resid : Nat) :
    ∃ s', Runs (sysGetcwd (some b) n 0 0 resid) boot (n - resid) s' := by
  simp [sysGetcwd, boot]

end Returns

section Deliver

variable {cwd : Option Cwd} {buf buflen : UInt32} {u : UserMem}

theorem deliversName_null : DeliversName cwd 0 buflen u := by
  refine ⟨Nat.zero_le _, Nat.zero_le _, fun s k s' hrun => ?_⟩
  have hneg := fail_neg .EFAULT
  rw [Getcwd, if_pos rfl, sysGetcwd, if_pos rfl, runs_pure] at hrun
  omega

/-- A call that gets no string from the buffer fails. -/
theorem deliversName_of_copyinstr (hbuf : buf ≠ 0)
    (h : (copyinstr u buf (.ofNat pathMax)).2 ≠ 0) : DeliversName cwd buf buflen u := by
  have hlen := copyinstr_length u buf (.ofNat pathMax)
  have hpos := copyinstr_nonneg u buf (.ofNat pathMax)
  rcases hcopy : copyinstr u buf (.ofNat pathMax) with ⟨bs, result⟩
  rw [hcopy] at h hlen hpos
  have hrun : getcwdRun cwd buf buflen u = { copyinstr := result, vfsGetcwd := 0, uioResid := 0
                                             fetched := bs, moved := [], mem := u } := by
    rw [getcwdRun, if_neg hbuf, hcopy]
    exact if_pos h
  refine ⟨?_, ?_, fun s k s' hcall => ?_⟩
  · rw [hrun]
    exact hlen
  · rw [hrun]
    exact Nat.zero_le _
  · rw [Getcwd, if_neg hbuf, hrun] at hcall
    have hret := ret_of_sysGetcwd hcall
    dsimp only at h hpos hret
    rw [if_pos h] at hret
    omega

variable (cwd buflen) in
/-- The run of a call that gets a string from the buffer. -/
theorem getcwdRun_eq (hbuf : buf ≠ 0) (hcopy : (copyinstr u buf (.ofNat pathMax)).2 = 0) :
    getcwdRun cwd buf buflen u =
      { copyinstr := 0, vfsGetcwd := (vfsGetcwd cwd (uioKinit buflen.toNat)).1
        uioResid := (vfsGetcwd cwd (uioKinit buflen.toNat)).2.resid
        fetched := (copyinstr u buf (.ofNat pathMax)).1
        moved := (vfsGetcwd cwd (uioKinit buflen.toNat)).2.moved, mem := u } := by
  rcases hc : copyinstr u buf (.ofNat pathMax) with ⟨bs, result⟩
  obtain rfl : result = 0 := by rw [← hcopy, hc]
  rw [getcwdRun, if_neg hbuf, hc]
  rfl

/-- A call for which `vfs_getcwd` fails has nothing to deliver. -/
theorem deliversName_of_error {result : Int} {uio : KernelUio} (hbuf : buf ≠ 0)
    (hcopy : (copyinstr u buf (.ofNat pathMax)).2 = 0) (hpos : 0 < result)
    (hvfs : vfsGetcwd cwd (uioKinit buflen.toNat) = (result, uio)) :
    DeliversName cwd buf buflen u ↔ uio.moved.length ≤ pathMax := by
  have hrun := getcwdRun_eq cwd buflen hbuf hcopy
  rw [hvfs] at hrun
  refine ⟨fun h => ?_, fun h => ⟨?_, ?_, fun s k s' hcall => ?_⟩⟩
  · have hmoved := h.moved
    rwa [hrun] at hmoved
  · rw [hrun]
    exact copyinstr_length u buf (.ofNat pathMax)
  · rwa [hrun]
  · rw [Getcwd, if_neg hbuf, hrun] at hcall
    have hret := ret_of_sysGetcwd hcall
    dsimp only at hret
    rw [if_neg (not_not.2 rfl), if_pos (ne_of_gt hpos)] at hret
    omega

/-- A call that succeeds counts what has been moved, and has delivered nothing. -/
theorem deliversName_of_ok {dir : Cwd} {path : List UInt8} (hbuf : buf ≠ 0)
    (hcopy : (copyinstr u buf (.ofNat pathMax)).2 = 0) (hname : dir.namefile = .ok path) :
    DeliversName (some dir) buf buflen u ↔
      min buflen.toNat (dir.prefixed ++ path).length ≤ pathMax ∧
        ∀ i < min buflen.toNat (dir.prefixed ++ path).length,
          u (buf + .ofNat i) = (dir.prefixed ++ path)[i]? := by
  have hvfs : vfsGetcwd (some dir) (uioKinit buflen.toNat) =
      (0, uiomove (dir.prefixed ++ path) (uioKinit buflen.toNat)) := by
    rw [vfsGetcwd_some, hname]
  have hrun := getcwdRun_eq (some dir) buflen hbuf hcopy
  have hresid := sub_resid (dir.prefixed ++ path) buflen.toNat
  have hmoved := length_moved (dir.prefixed ++ path) buflen.toNat
  rw [hvfs] at hrun
  refine ⟨fun h => ⟨?_, ?_⟩, fun ⟨hfits, hin⟩ => ⟨?_, ?_, fun s k s' hcall => ?_⟩⟩
  · have hle := h.moved
    rwa [hrun, hmoved] at hle
  · obtain ⟨s', hboot⟩ := sysGetcwd_boot buf.toNat buflen.toNat
      (uiomove (dir.prefixed ++ path) (uioKinit buflen.toNat)).resid
    rw [hresid] at hboot
    obtain ⟨-, dir', path', hdir, hpath, hin⟩ := h.delivers boot _ s' (by
      rw [Getcwd, if_neg hbuf, hrun]
      exact hboot)
    obtain rfl := Option.some.inj hdir
    obtain rfl := Except.ok.inj (hname.symm.trans hpath)
    rwa [hrun] at hin
  · rw [hrun]
    exact copyinstr_length u buf (.ofNat pathMax)
  · rwa [hrun, hmoved]
  · rw [Getcwd, if_neg hbuf, hrun] at hcall
    have hret := ret_of_sysGetcwd hcall
    rw [if_neg (not_not.2 rfl), if_neg (not_not.2 rfl)] at hret
    obtain rfl : k = min buflen.toNat (dir.prefixed ++ path).length :=
      Int.ofNat.inj (hret.trans hresid)
    rw [hrun]
    exact ⟨Nat.min_le_left _ _, dir, path, rfl, hname, hin⟩

/-- `__getcwd` delivers the name exactly when it fails before it has overrun `tempbuf`, or when as
much of the name as is asked for fits in `tempbuf` and is in the buffer already. -/
theorem deliversName_iff :
    DeliversName cwd buf buflen u ↔
      buf = 0 ∨ (copyinstr u buf (.ofNat pathMax)).2 ≠ 0 ∨
        ∀ dir, cwd = some dir → dir.AlreadyIn buf buflen u := by
  by_cases hbuf : buf = 0
  · rw [hbuf]
    exact iff_of_true deliversName_null (.inl rfl)
  by_cases hcopy : (copyinstr u buf (.ofNat pathMax)).2 = 0
  swap
  · exact iff_of_true (deliversName_of_copyinstr hbuf hcopy) (.inr (.inl hcopy))
  simp only [hbuf, hcopy, ne_eq, not_true, false_or]
  cases cwd with
  | none =>
      refine iff_of_true ?_ nofun
      have hpos : 0 < enoent := by decide
      exact (deliversName_of_error hbuf hcopy hpos rfl).2 (Nat.zero_le _)
  | some dir =>
      simp only [Option.some.injEq, forall_eq', Cwd.AlreadyIn]
      cases hname : dir.namefile with
      | error e =>
          rw [← length_moved]
          refine deliversName_of_error hbuf hcopy e.property ?_
          rw [vfsGetcwd_some, hname]
      | ok path => exact deliversName_of_ok hbuf hcopy hname

end Deliver

/-- The root directory of the emulator's file system. -/
def emuRoot : Cwd where
  volname := none
  devname := [101, 109, 117, 48]
  namefile := .ok []

/-- The buffer is in a page of zeros: the call returns `5`, and the page still holds zeros. -/
theorem not_deliversName_emuRoot :
    (∃ s', Getcwd (some emuRoot) 4096 100 zeroPage boot 5 s') ∧
      (getcwdRun (some emuRoot) 4096 100 zeroPage).mem = zeroPage ∧
      ¬ DeliversName (some emuRoot) 4096 100 zeroPage := by
  have hcopy : (copyinstr zeroPage 4096 (.ofNat pathMax)).2 = 0 := by decide
  have hrun := getcwdRun_eq (some emuRoot) 100 (by decide) hcopy
  refine ⟨?_, ?_, ?_⟩
  · obtain ⟨s', hboot⟩ := sysGetcwd_boot 4096 100 95
    refine ⟨s', ?_⟩
    rw [Getcwd, if_neg (by decide), hrun]
    exact hboot
  · rw [hrun]
  · rw [deliversName_iff]
    rintro (hbuf | hne | hin)
    · exact absurd hbuf (by decide)
    · exact hne hcopy
    · exact absurd ((hin emuRoot rfl).2 0 (by decide)) (by decide)

end Os161.Main
