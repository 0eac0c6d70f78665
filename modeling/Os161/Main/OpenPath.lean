import Os161.Main.Getcwd
import Os161.Vfs.Shapes

set_option autoImplicit false

/-!
# The path that `open` opens

`kern/syscall/open.c`, with the path. It is fetched as a string into a block of `__PATH_MAX` bytes,
of which `create_file` and `vfs_open` get the address. Of the answers of `copyinstr` only `EFAULT`
is looked at, so a string that does not fit is passed on without a terminator.
-/

namespace Os161.Main

open Os161.Lib.Program
open Os161.Lib.Runs
open Os161.Syscall
open Os161.Vfs

/-- What `open` gets from the kernel. The functions that get the path get an address, so what they
answer depends on the memory from there on. -/
structure OpenData where
  /-- The memory from the new block on, or `none` when `kmalloc` returns NULL. -/
  kmalloc : Option (Nat → UInt8)
  createFile : Bool
  /-- The copy of the path that `create_file` keeps. -/
  kstrdup : (Nat → UInt8) → String
  vfsOpen : (Nat → UInt8) → Except ErrCode VnodeRef

/-- The memory at `fpath` when the path has been copied in. -/
def fpath (u : UserMem) (filename : UInt32) (d : OpenData) : Nat → UInt8 :=
  fill (d.kmalloc.getD fun _ => 0) (copyinstr u filename (.ofNat pathMax)).1

/-- The answers that `sysOpen` works with. -/
def openEnv (u : UserMem) (filename : UInt32) (d : OpenData) : OpenEnv where
  kmallocPath := d.kmalloc.isSome
  copyinstr := (copyinstr u filename (.ofNat pathMax)).2
  path := d.kstrdup (fpath u filename d)
  createFile := d.createFile
  vfsOpen := d.vfsOpen (fpath u filename d)

/-- The address `0` is `NULL`. -/
def userPtr (a : UInt32) : Option UserPtr := if a = 0 then none else some a.toNat

/-- `str` is the string at the user address `a`. -/
structure StringAt (u : UserMem) (a : UInt32) (str : List UInt8) : Prop where
  nonzero : 0 ∉ str
  bytes : ∀ i < str.length, u (a + .ofNat i) = str[i]?
  terminator : u (a + .ofNat str.length) = some 0

/-- The file tables with their counters, and the references on vnodes, are the same. -/
def SameTables (s s' : Kernel) : Prop :=
  s'.procs = s.procs ∧ s'.gft.openFiles = s.gft.openFiles ∧ s'.gft.size = s.gft.size ∧
    s'.vnFile = s.vnFile ∧ s'.vnCwd = s.vnCwd

/-- A call of `open` that ends in `s'` has opened the path it was given, or nothing. -/
structure OpensPathOrNothing (u : UserMem) (filename : UInt32) (d : OpenData) (s : Kernel)
    (ret : Int) (s' : Kernel) : Prop where
  nothing : ret < 0 → SameTables s s'
  path : 0 ≤ ret → ∃ str, StringAt u filename str ∧ str.length < pathMax ∧
    (∀ i < str.length, some (fpath u filename d i) = str[i]?) ∧ fpath u filename d str.length = 0

/-! ## The string -/

section Strings

variable {u : UserMem} {a : UInt32} {n : Nat}

theorem add_one_add_ofNat (a : UInt32) (i : Nat) : a + 1 + .ofNat i = a + .ofNat (i + 1) := by
  rw [UInt32.ofNat_add, UInt32.add_comm (.ofNat i), ← UInt32.add_assoc]
  rfl

/-- A string that has been copied up to its terminator. -/
theorem stringAt_of_terminated (h : (copystrLoop u n a).2 = .terminated) :
    ∃ str, (copystrLoop u n a).1 = str ++ [0] ∧ str.length < n ∧ StringAt u a str := by
  induction n generalizing a with
  | zero => cases h
  | succ n ih =>
      rw [copystrLoop] at h ⊢
      cases hu : u a with
      | none =>
          rw [hu] at h
          cases h
      | some b =>
          simp only [hu] at h ⊢
          have hzero : u (a + .ofNat 0) = some b := by
            rw [← hu]
            exact congrArg u (UInt32.add_zero a)
          split_ifs at h ⊢ with hb
          · exact ⟨[], by rw [hb]; rfl, Nat.succ_pos n, List.not_mem_nil,
              fun i hi => absurd hi (Nat.not_lt_zero i), by rw [← hb]; exact hzero⟩
          · obtain ⟨str, hbs, hlen, hstr⟩ := ih h
            refine ⟨b :: str, by rw [hbs]; rfl, Nat.succ_lt_succ hlen, ?_, fun i hi => ?_, ?_⟩
            · exact fun hmem => (List.mem_cons.1 hmem).elim (fun h0 => hb h0.symm) hstr.nonzero
            · cases i with
              | zero => exact hzero
              | succ i =>
                  rw [← add_one_add_ofNat]
                  exact hstr.bytes i (Nat.lt_of_succ_lt_succ hi)
            · rw [List.length_cons, ← add_one_add_ofNat]
              exact hstr.terminator

/-- The loop runs to its end over bytes that are not zero. -/
theorem nonzero_of_exhausted (h : (copystrLoop u n a).2 = .exhausted) (i : Nat) (hi : i < n) :
    u (a + .ofNat i) ≠ some 0 := by
  induction n generalizing a i with
  | zero => exact absurd hi (Nat.not_lt_zero i)
  | succ n ih =>
      rw [copystrLoop] at h
      cases hu : u a with
      | none =>
          rw [hu] at h
          cases h
      | some b =>
          simp only [hu] at h
          split_ifs at h with hb
          cases i with
          | zero =>
              have hzero : u (a + .ofNat 0) = some b := by
                rw [← hu]
                exact congrArg u (UInt32.add_zero a)
              rw [hzero]
              exact fun h0 => hb (Option.some.inj h0)
          | succ i =>
              rw [← add_one_add_ofNat]
              exact ih h i (Nat.lt_of_succ_lt_succ hi)

/-- What `copyinstr` has answered, when it is not `EFAULT`. -/
theorem copyinstr_cases {len : UInt32} (h : (copyinstr u a len).2 ≠ Errno.EFAULT.code) :
    (∃ str, (copyinstr u a len).1 = str ++ [0] ∧ str.length < len.toNat ∧ StringAt u a str) ∨
      ∀ i < len.toNat, u (a + .ofNat i) ≠ some 0 := by
  rw [copyinstr] at h ⊢
  cases hc : copycheck a len with
  | error e =>
      rw [hc] at h
      rw [copycheck_error hc] at h
      exact absurd rfl h
  | ok stoplen =>
      simp only [hc] at h ⊢
      rcases hloop : copystrLoop u (min len.toNat stoplen.toNat) a with ⟨bs, e⟩
      cases e with
      | fault =>
          rw [hloop] at h
          exact absurd rfl h
      | terminated =>
          obtain ⟨str, hbs, hlen, hstr⟩ := stringAt_of_terminated (congrArg Prod.snd hloop)
          rw [hloop] at hbs
          exact .inl ⟨str, hbs, by omega, hstr⟩
      | exhausted =>
          refine .inr fun i hi => nonzero_of_exhausted (congrArg Prod.snd hloop) i ?_
          rw [hloop] at h
          simp only at h
          split_ifs at h with hstop
          · exact absurd rfl h
          · rw [UInt32.lt_iff_toNat_lt] at hstop
            omega

end Strings

/-! ## The call -/

section Opening

variable {s s' : Kernel} {p : ProcRef} {r : FileRef} {v : VnodeRef} {ret : Int}
  {flags : BitVec 32} {env : OpenEnv} {ptr : Option UserPtr}

theorem vnFile_putFileOnPtable {n : Int} (h : Runs (putFileOnPtable p r) s n s') :
    s'.vnFile = s.vnFile := by
  obtain ⟨hplaced, -⟩ := sim_putFileOnPtable h
  generalize hL : Ledger.of s' = L at hplaced
  have hvn : L.vnFile = s.vnFile := by cases hplaced <;> rfl
  exact (congrArg Ledger.vnFile hL).trans hvn

theorem installFile_counts (h : Runs (installFile p r v) s ret s') :
    ret = s.gft.nextFd ∧ s'.vnFile v = s.vnFile v + 1 := by
  simp only [installFile, runs_bind, runs_vopIncref, runs_readFile, runs_writeFile,
    runs_lockRelease, runs_pure] at h
  obtain ⟨_, s₁, rfl, g, s₂, ⟨hg, rfl⟩, fd, s₃, hfd, _, s₄, ⟨-, rfl⟩, m, s₅, hput, n, s₆, hpl, _,
    s₇, ⟨-, rfl⟩, rfl, rfl⟩ := h
  obtain ⟨rfl, rfl⟩ := runs_getNextFd hfd
  obtain ⟨openFiles, size, rfl, -⟩ := runs_putFileOnGtable_keep hput
  refine ⟨rfl, ?_⟩
  show s₆.vnFile v = _
  rw [vnFile_putFileOnPtable hpl]
  exact Function.update_self ..

theorem openPath_cases (h : Runs (openPath p flags env) s ret s') :
    (ret < 0 ∧ SameTables s s' ∧
      ¬ (env.createFile = true ∧ accessOf flags ≠ none ∧ ∃ v, env.vfsOpen = .ok v)) ∨
    ((env.createFile = true ∧ accessOf flags ≠ none ∧ ∃ v, env.vfsOpen = .ok v) ∧
      ret = s.gft.nextFd ∧ ¬ SameTables s s') := by
  rw [openPath, runs_bind] at h
  obtain ⟨x, s₁, hcreate, h⟩ := h
  rcases runs_createFile hcreate with ⟨halloc, rfl, rfl⟩ | ⟨halloc, rfl, cs, rfl⟩
  · simp only [runs_bind, runs_lockRelease, runs_pure] at h
    obtain ⟨_, s₂, ⟨-, rfl⟩, rfl, rfl⟩ := h
    exact .inl ⟨fail_neg _, ⟨rfl, rfl, rfl, rfl, rfl⟩, fun hc => by simp [halloc] at hc⟩
  · cases hacc : accessOf flags with
    | none =>
        simp only [hacc, runs_pure] at h
        obtain ⟨rfl, rfl⟩ := h
        exact .inl ⟨fail_neg _, ⟨rfl, rfl, rfl, rfl, rfl⟩, fun hc => hc.2.1 rfl⟩
    | some rw' =>
        simp only [hacc, runs_bind, runs_readFile, runs_writeFile] at h
        obtain ⟨f, s₂, ⟨-, rfl⟩, _, s₃, ⟨-, rfl⟩, h⟩ := h
        cases hv : env.vfsOpen with
        | error tst =>
            simp only [hv, runs_bind, runs_lockRelease, runs_pure] at h
            obtain ⟨_, s₄, ⟨-, rfl⟩, rfl, rfl⟩ := h
            have hpos := tst.2
            exact .inl ⟨by omega, ⟨rfl, rfl, rfl, rfl, rfl⟩, by simp⟩
        | ok v =>
            simp only [hv] at h
            obtain ⟨hret, hcount⟩ := installFile_counts h
            refine .inr ⟨⟨halloc, by simp, v, rfl⟩, hret, fun hsame => ?_⟩
            have hvn := congrFun hsame.2.2.2.1 v
            have hcount : s'.vnFile v = s.vnFile v + 1 := hcount
            omega

/-- A call of `open` passes all its checks and returns the next number, or it fails and leaves the
tables as they are. -/
theorem sysOpen_cases (h : Runs (sysOpen ptr flags env) s ret s') :
    (ret < 0 ∧ SameTables s s' ∧ ¬ Opens s s.curproc ptr flags env) ∨
    (Opens s s.curproc ptr flags env ∧ ret = s.gft.nextFd ∧ ¬ SameTables s s') := by
  simp only [sysOpen, runs_bind, runs_get, runs_ite, runs_curproc, runs_lockAcquire,
    runs_readTable, runs_lockRelease, runs_pure] at h
  obtain ⟨a, s₀, ⟨rfl, rfl⟩, h⟩ := h
  rcases h with ⟨hfn, rfl, rfl⟩ | ⟨hfn, ⟨hg, rfl, rfl⟩ | ⟨hg, h⟩⟩
  · exact .inl ⟨fail_neg _, ⟨rfl, rfl, rfl, rfl, rfl⟩, fun ho => ho.filename hfn⟩
  · exact .inl ⟨fail_neg _, ⟨rfl, rfl, rfl, rfl, rfl⟩, fun ho => ho.gtable hg⟩
  obtain ⟨p, s₁, ⟨rfl, rfl⟩, _, s₂, ⟨-, rfl⟩, t, s₃, ⟨⟨P, hP, rfl⟩, rfl⟩, h⟩ := h
  have hP' : s₁.procs s₁.curproc = some P := hP
  rcases h with ⟨hp, _, s₄, ⟨-, rfl⟩, rfl, rfl⟩ | ⟨hp, ⟨hk, _, s₄, ⟨-, rfl⟩, rfl, rfl⟩ | ⟨hk,
    ⟨hc, _, s₄, ⟨-, rfl⟩, rfl, rfl⟩ | ⟨hc, h⟩⟩⟩
  · refine .inl ⟨fail_neg _, ⟨rfl, rfl, rfl, rfl, rfl⟩, fun ho => ?_⟩
    obtain ⟨Q, hQ, hne⟩ := ho.ptable
    obtain rfl := Option.some.inj (hP'.symm.trans hQ)
    exact hne hp
  · exact .inl ⟨fail_neg _, ⟨rfl, rfl, rfl, rfl, rfl⟩, fun ho => by simp [ho.path] at hk⟩
  · exact .inl ⟨fail_neg _, ⟨rfl, rfl, rfl, rfl, rfl⟩, fun ho => ho.copied hc⟩
  · rcases openPath_cases h with ⟨hneg, hsame, hnot⟩ | ⟨hchecks, hret, hchanged⟩
    · exact .inl ⟨hneg, hsame, fun ho => hnot ⟨ho.file, ho.mode, ho.vnode⟩⟩
    · obtain ⟨hfile, hmode, hv⟩ := hchecks
      exact .inr ⟨⟨hfn, hg, ⟨P, hP', hp⟩, by simpa using hk, hc, hfile, hmode, hv⟩, hret, hchanged⟩

variable {u : UserMem} {filename : UInt32} {d : OpenData}

/-- What has been copied in is what `vfs_open` finds. -/
theorem fpath_of_copied {str : List UInt8}
    (h : (copyinstr u filename (.ofNat pathMax)).1 = str ++ [0]) :
    (∀ i < str.length, some (fpath u filename d i) = str[i]?) ∧
      fpath u filename d str.length = 0 := by
  constructor
  · intro i hi
    rw [fpath, fill, h, List.getD_eq_getElem?_getD, List.getElem?_append_left hi,
      List.getElem?_eq_getElem hi, Option.getD_some]
  · rw [fpath, fill, h, List.getD_eq_getElem?_getD, List.getElem?_concat_length, Option.getD_some]

/-- `open` opens the path it was given, or nothing, exactly when one of its checks fails or the path
has its terminator among the first `__PATH_MAX` bytes. (The numbers that `open` returns begin at
`3` and only grow.) -/
theorem opensPathOrNothing_iff
    (h : Runs (sysOpen (userPtr filename) flags (openEnv u filename d)) s ret s') :
    OpensPathOrNothing u filename d s ret s' ↔
      ¬ Opens s s.curproc (userPtr filename) flags (openEnv u filename d) ∨
        0 ≤ s.gft.nextFd ∧ ∃ i < pathMax, u (filename + .ofNat i) = some 0 := by
  rcases sysOpen_cases h with ⟨hneg, hsame, hnot⟩ | ⟨hopens, rfl, hchanged⟩
  · exact iff_of_true ⟨fun _ => hsame, fun hret => absurd hneg (not_lt.2 hret)⟩ (.inl hnot)
  · constructor
    · intro hexact
      have hret : 0 ≤ s.gft.nextFd := by
        by_contra hneg
        exact hchanged (hexact.nothing (not_le.1 hneg))
      obtain ⟨str, hstr, hlen, -⟩ := hexact.path hret
      exact .inr ⟨hret, str.length, hlen, hstr.terminator⟩
    · rintro (hnot | ⟨hret, i, hi, hzero⟩)
      · exact absurd hopens hnot
      · refine ⟨fun hneg => absurd hneg (not_lt.2 hret), fun _ => ?_⟩
        rcases copyinstr_cases hopens.copied with ⟨str, hbs, hlen, hstr⟩ | hnonzero
        · exact ⟨str, hstr, hlen, fpath_of_copied hbs⟩
        · exact absurd hzero (hnonzero i hi)

end Opening

/-! ## Two paths -/

/-- A page that holds the letter `a` and, at its offset `n`, a zero. -/
def letterPage (n : UInt32) : UserMem := fun a =>
  if 4096 ≤ a ∧ a < 8192 then (if a = 4096 + n then some 0 else some 97) else none

/-- Nothing fails, and the vnode is `7`. -/
def nothingFails : OpenData where
  kmalloc := some fun _ => 98
  createFile := true
  kstrdup := fun _ => ""
  vfsOpen := fun _ => .ok 7

/-- `open` of the string at the start of such a page. -/
def openLetters (n : UInt32) (s : Kernel) : Option (Int × Kernel) :=
  (sysOpen (userPtr 4096) 0 (openEnv (letterPage n) 4096 nothingFails)
    { s with curproc := 1 }).toOption

theorem runs_openLetters {n : UInt32} {s s' : Kernel} {ret : Int}
    (h : openLetters n s = some (ret, s')) :
    Runs (sysOpen (userPtr 4096) 0 (openEnv (letterPage n) 4096 nothingFails))
      { s with curproc := 1 } ret s' := by
  rw [openLetters] at h
  unfold Runs
  cases hopen : sysOpen (userPtr 4096) 0 (openEnv (letterPage n) 4096 nothingFails)
      { s with curproc := 1 } with
  | error e =>
      rw [hopen] at h
      cases h
  | ok r =>
      rw [hopen] at h
      rw [Option.some.inj h]

/-- The path `a`. -/
theorem opensPathOrNothing_letter : ∃ s s', execAll boot startOne = some s ∧
    OpensPathOrNothing (letterPage 1) 4096 nothingFails { s with curproc := 1 } 3 s' := by
  have hrun : ((execAll boot startOne).any fun s =>
      s.gft.nextFd == 3 && (openLetters 1 s).any fun r => r.1 == 3) = true := by
    decide +kernel
  obtain ⟨s, hs, hc⟩ := (Option.any_eq_true _ _).1 hrun
  simp only [Bool.and_eq_true, Option.any_eq_true, beq_iff_eq] at hc
  obtain ⟨hnum, ⟨ret, s'⟩, hopen, rfl⟩ := hc
  refine ⟨s, s', hs, (opensPathOrNothing_iff (runs_openLetters hopen)).2 (.inr ⟨?_, 1, ?_, ?_⟩)⟩
  · show 0 ≤ s.gft.nextFd
    rw [hnum]
    decide
  · decide
  · decide

/-- A path of more than a thousand letters: what is opened has further letters, those that the heap
holds behind the block. -/
theorem not_opensPathOrNothing_letters : ¬ ∀ s p u filename flags d ret s',
    Reach step anyStep boot s → userThread s p true = true →
    Runs (sysOpen (userPtr filename) flags (openEnv u filename d)) { s with curproc := p } ret s' →
    OpensPathOrNothing u filename d { s with curproc := p } ret s' := by
  intro h
  have hrun : ((execAll boot startOne).any fun s => userThread s 1 true &&
      (openLetters 4096 s).any fun r => r.1 == 3) = true := by
    decide +kernel
  obtain ⟨s, hs, hc⟩ := (Option.any_eq_true _ _).1 hrun
  simp only [Bool.and_eq_true, Option.any_eq_true, beq_iff_eq] at hc
  obtain ⟨huser, ⟨ret, s'⟩, hopen, rfl⟩ := hc
  have hexact := h s 1 _ _ _ nothingFails 3 s' (reach_of_execAll startOne .refl hs) huser
    (runs_openLetters hopen)
  obtain ⟨str, hstr, -⟩ := hexact.path (by decide)
  have hterm := hstr.terminator
  rw [letterPage] at hterm
  split_ifs at hterm with hin heq
  · rw [heq] at hin
    exact absurd hin (by decide)
  · exact absurd hterm (by decide)

end Os161.Main
