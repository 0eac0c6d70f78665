import Os161.Main.Locks
import Os161.Main.Shapes

set_option autoImplicit false

/-!
# Missing pointers in read, write and lseek

A console stream has no seek position and no vnode, and the three calls tell it from a regular
file by different tests: `lseek` refuses every console stream, `read` knows standard input only,
and `write` knows standard output and standard error only. So `read` on standard output or
standard error, and `write` on standard input, go on as for a regular file and use a pointer that
is not there.
-/

namespace Os161.Main

open Os161.Lib.Program
open Os161.Lib.Runs
open Os161.Lib.Slots
open Os161.Vfs
open Os161.Proc
open Os161.Syscall

variable {s s' : Kernel} {p : ProcRef} {P : Os161.Proc} {fd : Int} {r : FileRef} {f : File}

/-! ## Lookups that return -/

/-- The slot `i` is the one that a lookup of `fd` finds: the files in the slots before it can be
read and have other numbers. -/
structure FindsAt (heap : FileRef → Option File) (t : PFileTable) (fd : Int) (i : Fin openMax)
    (r : FileRef) (f : File) : Prop where
  slot : t.files i = some r
  file : heap r = some f
  number : f.localFd = fd
  before : ∀ j r', j < i → t.files j = some r' → ∃ g, heap r' = some g ∧ g.localFd ≠ fd

theorem runs_testSlot_iff {x : Option FileRef} {b : Bool} :
    Runs (testSlot (fun f => f.localFd == fd) x) s b s ↔
      (x = none ∧ b = false) ∨ ∃ r f, x = some r ∧ s.heap r = some f ∧ b = (f.localFd == fd) := by
  cases x with
  | none => simp [testSlot]
  | some r => simp [testSlot]

/-- The indices before `i` in the list of all indices are the smaller ones. -/
theorem mem_before_iff {l₁ l₂ : List (Fin openMax)} {i j : Fin openMax}
    (h : List.finRange openMax = l₁ ++ i :: l₂) : j ∈ l₁ ↔ j < i := by
  have hsorted : (l₁ ++ i :: l₂).Pairwise (· < ·) := by
    rw [← h]
    exact List.pairwise_lt_finRange openMax
  obtain ⟨-, htail, hcross⟩ := List.pairwise_append.1 hsorted
  constructor
  · exact fun hj => hcross j hj i List.mem_cons_self
  · intro hj
    have hmem : j ∈ l₁ ++ i :: l₂ := by
      rw [← h]
      exact List.mem_finRange j
    rcases List.mem_append.1 hmem with hj' | hj'
    · exact hj'
    · -- an index behind `i` is larger
      exfalso
      rcases List.mem_cons.1 hj' with rfl | hj'
      · exact lt_irrefl _ hj
      · exact lt_asymm hj (List.rel_of_pairwise_cons htail hj')

/-- A lookup finds `r` when the lock of the table is free and `r` is in the slot that a lookup
finds. -/
theorem runs_pFiletableLookup_some (hP : s.procs p = some P) (fd : Int) :
    Runs (pFiletableLookup p fd) s (some r) s ↔
      s.held (.procFt p) = none ∧ ∃ i f, FindsAt s.heap P.pFiletable fd i r f := by
  constructor
  · intro h
    simp only [pFiletableLookup, runs_bind, runs_lockAcquire, runs_readTable, runs_lockRelease,
      runs_pure] at h
    obtain ⟨_, s₁, ⟨hfree, rfl⟩, t, s₂, ⟨⟨Q, hQ, rfl⟩, rfl⟩, found, s₃, hscan, _, s₄, ⟨-, -⟩, hr, -⟩ := h
    have e : Q = P := Option.some.inj (hQ.symm.trans hP)
    subst e
    refine ⟨hfree, ?_⟩
    obtain ⟨i, rfl, hi⟩ := Option.bind_eq_some_iff.1 hr.symm
    -- the search stops at the slot, after a test of each slot before it
    obtain ⟨l₁, l₂, hl, htest, hbefore⟩ := scanFirst_tests (reads_testSlot _ _ _) _ hscan
    rcases runs_testSlot_iff.1 htest with ⟨-, hb⟩ | ⟨r', f, hr', hf, hb⟩
    · cases hb
    rw [hi] at hr'
    cases hr'
    refine ⟨i, f, hi, hf, by simpa using hb.symm, fun j r' hj hr' => ?_⟩
    rcases runs_testSlot_iff.1 (hbefore j ((mem_before_iff hl).2 hj)) with ⟨hnone, -⟩ |
      ⟨r'', g, hr'', hg, hb⟩
    · rw [hr'] at hnone
      cases hnone
    · rw [hr'] at hr''
      cases hr''
      exact ⟨g, hg, by simpa using hb⟩
  · rintro ⟨hfree, i, f, h⟩
    obtain ⟨l₁, l₂, hl⟩ := List.append_of_mem (List.mem_finRange i)
    have hscan : Runs (scanFirst (fun i => testSlot (fun f => f.localFd == fd)
        (P.pFiletable.files i)) (List.finRange openMax))
        { s with held := Function.update s.held (.procFt p) (some s.curproc) } (some i)
        { s with held := Function.update s.held (.procFt p) (some s.curproc) } := by
      rw [hl]
      refine scanFirst_finds l₂ ?_ l₁ fun j hj => ?_
      · exact runs_testSlot_iff.2 (.inr ⟨r, f, h.slot, h.file, by simp [h.number]⟩)
      · cases hj' : P.pFiletable.files j with
        | none => exact runs_testSlot_iff.2 (.inl ⟨rfl, rfl⟩)
        | some r' =>
            obtain ⟨g, hg, hne⟩ := h.before j r' ((mem_before_iff hl).1 hj) hj'
            exact runs_testSlot_iff.2 (.inr ⟨r', g, rfl, hg, by simpa using hne⟩)
    simp only [pFiletableLookup, runs_bind, runs_lockAcquire, runs_readTable, runs_lockRelease,
      runs_pure]
    refine ⟨(), _, ⟨hfree, rfl⟩, P.pFiletable, _, ⟨⟨P, hP, rfl⟩, rfl⟩, _, _, hscan, (), _,
      ⟨by simp, rfl⟩, by simp [h.slot], ?_⟩
    simp only [update_held_cancel hfree]

/-- A lookup never panics. -/
theorem stops_pFiletableLookup (h : Stops (pFiletableLookup p fd) s .panic) : False := by
  simp only [pFiletableLookup, stops_bind, stops_lockAcquire, stops_readTable, runs_lockAcquire,
    runs_readTable, stops_lockRelease, stops_pure, reduceCtorEq, and_false, false_or, or_false,
    exists_false] at h
  obtain ⟨_, s₁, ⟨hfree, rfl⟩, t, s₂, ⟨⟨Q, hQ, rfl⟩, rfl⟩, h⟩ := h
  rcases h with h | ⟨found, s₃, hscan, hrel, -⟩
  · obtain ⟨i, -, hi⟩ := stops_scanFirst (reads_testSlot _ _ _) _ h
    change Stops (testSlot (fun f => f.localFd == fd) (Q.pFiletable.files i)) _ _ at hi
    cases hx : Q.pFiletable.files i with
    | none => simp [hx, testSlot] at hi
    | some r => simp [hx, testSlot] at hi
  · -- the lock is still held at the release
    obtain ⟨rfl, -⟩ := runs_scanFirst (reads_testSlot _ _ _) _ hscan
    simp at hrel

/-! ## The three calls -/

/-- The call of `p` on `fd` gets its locks and finds the file `f` at `r`. -/
structure Reaches (s : Kernel) (p : ProcRef) (fd : Int) (r : FileRef) (f : File) : Prop where
  ops : s.held (.ops p) = none
  table : s.held (.procFt p) = none
  lock : s.held (.file r) = none
  found : ∃ P i, s.procs p = some P ∧ FindsAt s.heap P.pFiletable fd i r f

/-- The state in which a handler looks its descriptor up. -/
def opsTaken (s : Kernel) (p : ProcRef) : Kernel :=
  { s with held := Function.update s.held (.ops p) (some s.curproc) }

theorem held_file_opsTaken : (opsTaken s p).held (.file r) = s.held (.file r) := by
  simp [opsTaken]

/-- The common start of the handlers stops only behind the lookup. -/
theorem stops_lookup {α : Type} {k : Option FileRef → K α} (hP : s.procs p = some P) (fd : Int)
    (hnone : ¬ Stops (k none) (opsTaken s p) .panic) :
    Stops (do
      lockAcquire (.ops p)
      let x ← pFiletableLookup p fd
      k x) s .panic ↔
    s.held (.ops p) = none ∧ s.held (.procFt p) = none ∧
      ∃ i r f, FindsAt s.heap P.pFiletable fd i r f ∧ Stops (k (some r)) (opsTaken s p) .panic := by
  have hfind : ∀ r, Runs (pFiletableLookup p fd) (opsTaken s p) (some r) (opsTaken s p) ↔
      s.held (.procFt p) = none ∧ ∃ i f, FindsAt s.heap P.pFiletable fd i r f := by
    intro r
    have h := runs_pFiletableLookup_some (s := opsTaken s p) (r := r) hP fd
    have e : (opsTaken s p).held (.procFt p) = s.held (.procFt p) := by simp [opsTaken]
    rw [e] at h
    exact h
  simp only [stops_bind, stops_lockAcquire, runs_lockAcquire, reduceCtorEq, and_false, false_or]
  constructor
  · rintro ⟨_, s₁, ⟨hfree, rfl⟩, h | ⟨x, s₂, hlook, h⟩⟩
    · exact (stops_pFiletableLookup h).elim
    · obtain ⟨rfl, -⟩ := runs_pFiletableLookup hlook
      cases x with
      | none => exact absurd h hnone
      | some r =>
          obtain ⟨htable, i, f, hi⟩ := (hfind r).1 hlook
          exact ⟨hfree, htable, i, r, f, hi, h⟩
  · rintro ⟨hfree, htable, i, r, f, hi, h⟩
    exact ⟨(), _, ⟨hfree, rfl⟩, .inr ⟨some r, _, (hfind r).2 ⟨htable, i, f, hi⟩, h⟩⟩

theorem stops_readData {buflen : Nat} {env : ReadEnv} (hlock : s.held (.file r) = some s.curproc) :
    Stops (readData r f buflen env) s .panic ↔ f.seekPos = none ∨ f.fileVnode = none := by
  cases hc : f.seekPos with
  | none => simp [readData, hc]
  | some c =>
      cases hv : f.fileVnode with
      | none => simp [readData, hc, hv]
      | some v => simp [readData, hc, hv, hlock]

theorem stops_readFound {buflen : Nat} {env : ReadEnv} (hops : s.held (.ops p) = some s.curproc)
    (hP : s.procs p = some P) (hf : s.heap r = some f) :
    Stops (readFound p r buflen env) s .panic ↔
      s.held (.file r) = none ∧ f.canRead = true ∧ f.stdFileStatus ≠ 0 ∧ env.kmalloc = true ∧
        (f.seekPos = none ∨ f.fileVnode = none) := by
  by_cases hlock : s.held (.file r) = none
  · cases hread : f.canRead with
    | false => simp [readFound, hf, hP, hlock, hread, hops]
    | true =>
        -- the console path follows no pointer of the file
        by_cases hstd : f.stdFileStatus = 0
        · cases hk : env.kmalloc <;>
            simp [readFound, hf, hP, hlock, hread, hops, hstd, readConsole, hk]
        · cases hk : env.kmalloc with
          | false => simp [readFound, hf, hP, hlock, hread, hops, hstd, hk]
          | true =>
              simp only [readFound, stops_bind, stops_lockFile, runs_lockFile, stops_readFile,
                runs_readFile, stops_readTable, runs_readTable]
              simp [hf, hP, hlock, hread, hops, hstd, hk, stops_readData]
  · simp [readFound, hf, hlock]

theorem stops_writeConsole {env : WriteEnv} (hlock : s.held (.file r) = some s.curproc) :
    ¬ Stops (writeConsole r env) s .panic := by
  simp [writeConsole, hlock]

theorem stops_writeData {buflen : Nat} {env : WriteEnv}
    (hlock : s.held (.file r) = some s.curproc) :
    Stops (writeData r f buflen env) s .panic ↔
      env.kmalloc = true ∧ env.copyin ≠ Errno.EFAULT.code ∧
        (f.seekPos = none ∨ f.fileVnode = none) := by
  cases hk : env.kmalloc with
  | false => simp [writeData, hk, hlock]
  | true =>
      cases hc : f.seekPos with
      | none => simp [writeData, hk, hc, hlock]
      | some c =>
          cases hv : f.fileVnode with
          | none => simp [writeData, hk, hc, hv, hlock]
          | some v => simp [writeData, hk, hc, hv, hlock]

theorem stops_writeFound {buflen : Nat} {env : WriteEnv} (hops : s.held (.ops p) = some s.curproc)
    (hP : s.procs p = some P) (hf : s.heap r = some f) :
    Stops (writeFound p r buflen env) s .panic ↔
      s.held (.file r) = none ∧ f.canWrite = true ∧
        ¬ (f.stdFileStatus = 1 ∨ f.stdFileStatus = 2) ∧ env.kmalloc = true ∧
        env.copyin ≠ Errno.EFAULT.code ∧ (f.seekPos = none ∨ f.fileVnode = none) := by
  by_cases hlock : s.held (.file r) = none
  · cases hwrite : f.canWrite with
    | false => simp [writeFound, hf, hP, hlock, hwrite, hops]
    | true =>
        by_cases hstd : f.stdFileStatus = 1 ∨ f.stdFileStatus = 2
        · rcases hstd with hstd | hstd <;>
            simp [writeFound, hf, hP, hlock, hwrite, hops, hstd, stops_writeConsole]
        · obtain ⟨hone, htwo⟩ := not_or.1 hstd
          simp [writeFound, hf, hP, hlock, hwrite, hops, hone, htwo, stops_writeData]
  · simp [writeFound, hf, hlock]

theorem stops_lseekStore {pos whence : Int} {env : LseekEnv} {c : CellRef}
    (hc : f.seekPos = some c) (hlock : s.held (.file r) = some s.curproc) :
    ¬ Stops (lseekStore r f pos whence env) s .panic := by
  rw [lseekStore, stops_bind, hc]
  rintro (h | ⟨cur, s₁, hcur, h⟩)
  · simp [seekCur] at h
  · obtain rfl := runs_seekCur hcur
    cases ht : seekTarget whence cur env.stSize pos with
    | none => simp [ht, hlock] at h
    | some newPos => simp [ht, hlock] at h

/-- `lseek` tells every console stream from a regular file. -/
theorem stops_lseekFound {pos whence : Int} {env : LseekEnv} (hshape : Shape f)
    (hf : s.heap r = some f) (hk : env.kmalloc = true) :
    ¬ Stops (lseekFound r pos whence env) s .panic := by
  by_cases hlock : s.held (.file r) = none
  · cases hshape with
    -- refused before `VOP_STAT`
    | console hstd _ _ _ _ =>
        have hne : f.stdFileStatus ≠ -1 := by omega
        simp [lseekFound, hf, hlock, hne]
    | data hstd hc hv =>
        obtain ⟨c, hc⟩ := Option.ne_none_iff_exists'.1 hc
        simp [lseekFound, hf, hlock, hstd, hv, hk, stops_lseekStore hc]
  · simp [lseekFound, hf, hlock]

/-- The call goes on as for a regular file with a console stream: a `read` of standard output or
standard error, or a `write` to standard input, that is not refused before. -/
def WrongStream (s : Kernel) : Request → Prop
  | .read fd buf _ env => buf ≠ none ∧ env.kmalloc = true ∧
      ∃ r f, Reaches s s.curproc fd r f ∧ (f.stdFileStatus = 1 ∨ f.stdFileStatus = 2)
  | .write fd buf _ env => buf ≠ none ∧ env.kmalloc = true ∧ env.copyin ≠ Errno.EFAULT.code ∧
      ∃ r f, Reaches s s.curproc fd r f ∧ f.stdFileStatus = 0
  | _ => False

/-- A file found in the table of a process has its shape. -/
theorem FindsAt.shape {i : Fin openMax} (h : FindsAt s.heap P.pFiletable fd i r f)
    (hs : (Ledger.of s).Shaped) (hP : s.procs p = some P) : Shape f :=
  hs.shape p i r f ((congrFun (rowOf_some hP) i).trans h.slot) h.file

theorem stops_sysRead (hs : (Ledger.of s).Shaped) (hP : s.procs s.curproc = some P)
    {buf : Option UserPtr} {buflen : Nat} {env : ReadEnv} :
    Stops (sysRead fd buf buflen env) s .panic ↔
      WrongStream s (.read fd buf buflen env) := by
  cases buf with
  | none => simp [sysRead, WrongStream]
  | some ptr =>
      refine Iff.trans (stops_lookup (s := s) (p := s.curproc) hP fd (by simp [opsTaken])) ?_
      constructor
      · rintro ⟨hops, htable, i, r, f, hi, h⟩
        obtain ⟨hlock, -, hne, hk, hmiss⟩ := (stops_readFound (s := opsTaken s s.curproc)
          (by simp [opsTaken]) hP hi.file).1 h
        rw [held_file_opsTaken] at hlock
        -- a pointer is missing in console streams only
        have hstd := ((hi.shape hs hP).missing_iff).1 hmiss
        exact ⟨by simp, hk, r, f, ⟨hops, htable, hlock, P, i, hP, hi⟩, by omega⟩
      · rintro ⟨-, hk, r, f, ⟨hops, htable, hlock, Q, i, hQ, hi⟩, hstd⟩
        have e : Q = P := Option.some.inj (hQ.symm.trans hP)
        subst e
        have hshape := hi.shape hs hP
        refine ⟨hops, htable, i, r, f, hi, (stops_readFound (s := opsTaken s s.curproc)
          (by simp [opsTaken]) hP hi.file).2 ⟨?_, ?_, by omega, hk, hshape.missing_iff.2 (.inr hstd)⟩⟩
        · rw [held_file_opsTaken]
          exact hlock
        · -- standard output and standard error can be read, as far as the file says
          cases hshape with
          | console _ hread _ _ _ => exact hread
          | data hstd' _ _ => omega

theorem stops_sysWrite (hs : (Ledger.of s).Shaped) (hP : s.procs s.curproc = some P)
    {buf : Option UserPtr} {buflen : Nat} {env : WriteEnv} :
    Stops (sysWrite fd buf buflen env) s .panic ↔
      WrongStream s (.write fd buf buflen env) := by
  cases buf with
  | none => simp [sysWrite, WrongStream]
  | some ptr =>
      refine Iff.trans (stops_lookup (s := s) (p := s.curproc) hP fd (by simp [opsTaken])) ?_
      constructor
      · rintro ⟨hops, htable, i, r, f, hi, h⟩
        obtain ⟨hlock, -, hne, hk, hin, hmiss⟩ := (stops_writeFound (s := opsTaken s s.curproc)
          (by simp [opsTaken]) hP hi.file).1 h
        rw [held_file_opsTaken] at hlock
        -- all three are without pointers, and two have been sorted out
        have hstd := ((hi.shape hs hP).missing_iff).1 hmiss
        exact ⟨by simp, hk, hin, r, f, ⟨hops, htable, hlock, P, i, hP, hi⟩, by omega⟩
      · rintro ⟨-, hk, hin, r, f, ⟨hops, htable, hlock, Q, i, hQ, hi⟩, hstd⟩
        have e : Q = P := Option.some.inj (hQ.symm.trans hP)
        subst e
        have hshape := hi.shape hs hP
        refine ⟨hops, htable, i, r, f, hi, (stops_writeFound (s := opsTaken s s.curproc)
          (by simp [opsTaken]) hP hi.file).2
            ⟨?_, ?_, by omega, hk, hin, hshape.missing_iff.2 (.inl hstd)⟩⟩
        · rw [held_file_opsTaken]
          exact hlock
        · cases hshape with
          | console _ _ hwrite _ _ => exact hwrite
          | data hstd' _ _ => omega

theorem stops_sysLseek (hs : (Ledger.of s).Shaped) (hP : s.procs s.curproc = some P)
    {pos whence : Int} {env : LseekEnv} (hk : env.kmalloc = true) :
    ¬ Stops (sysLseek fd pos whence env) s .panic := by
  by_cases hrange : fd < 0 ∨ fd ≥ openMax
  · rw [sysLseek, if_pos hrange]
    exact stops_pure _ _ _
  · intro h
    rw [sysLseek, if_neg hrange] at h
    obtain ⟨-, -, i, r, f, hi, hstop⟩ :=
      (stops_lookup (s := s) (p := s.curproc) hP fd (by simp [opsTaken])).1 h
    simp only [stops_bind, stops_lockRelease, runs_lockRelease] at hstop
    -- the `ops_lock` is released before the file is looked at
    rcases hstop with ⟨hne, -⟩ | ⟨_, s₁, ⟨-, rfl⟩, hstop⟩
    · exact hne (by simp [opsTaken])
    · refine absurd hstop (stops_lseekFound (hi.shape hs hP) ?_ hk)
      exact hi.file

/-- The call is a `read`, a `write` or an `lseek`. -/
def UsesFile : Request → Prop
  | .read _ _ _ _ | .write _ _ _ _ | .lseek _ _ _ _ => True
  | _ => False

/-- The `struct stat` of an `lseek` is allocated. -/
def HasStat : Request → Prop
  | .lseek _ _ _ env => env.kmalloc = true
  | _ => True

/-- The call stops at a missing seek position or vnode. An `lseek` without memory for its
`struct stat` stops too, for another reason. -/
def UsesNull (s : Kernel) (req : Request) : Prop := Stops (handle req) s .panic ∧ HasStat req

/-- In every reachable state, the three calls use no missing pointer unless they go on with the
wrong console stream. -/
theorem not_usesNull_iff {req : Request} (hs : Reach step anyStep boot s)
    (hready : userThread s p true = true) (hreq : UsesFile req) :
    ¬ UsesNull { s with curproc := p } req ↔ ¬ WrongStream { s with curproc := p } req := by
  have hreach : (Ledger.of s).Shaped := shaped_of_reach hs
  have hshaped : (Ledger.of { s with curproc := p }).Shaped := hreach
  simp only [userThread, Bool.and_eq_true, Option.any_eq_true] at hready
  obtain ⟨-, P, hP, -⟩ := hready
  have hP' : ({ s with curproc := p } : Kernel).procs p = some P := hP
  rw [not_iff_not]
  cases req with
  | read fd buf buflen env =>
      refine Iff.trans ?_ (stops_sysRead hshaped hP')
      exact and_iff_left trivial
  | write fd buf buflen env =>
      refine Iff.trans ?_ (stops_sysWrite hshaped hP')
      exact and_iff_left trivial
  -- `lseek` goes on with no console stream
  | lseek fd pos whence env =>
      refine iff_of_false ?_ (fun h => h)
      rintro ⟨hstop, hk⟩
      exact stops_sysLseek hshaped hP' hk hstop
  | _ => exact hreq.elim

/-- Answers with which `read` gets its memory and reads nothing. -/
def readOk : ReadEnv :=
  { kmalloc := true, getch := fun _ => 10, copyoutstr := fun _ => 0, vopRead := 0, uioResid := 0
    uioOffset := 0, copyout := 0 }

theorem not_usesNull_readZero : ∃ s, execAll boot startOne = some s ∧
    ¬ UsesNull { s with curproc := 1 } (.read 0 (some 1) 1 readOk) := by
  have hrun : ((execAll boot startOne).any fun s => userThread s 1 true &&
      (s.procs 1).any fun P => P.pFiletable.files 0 == some 0 &&
        (s.heap 0).any fun f => f.localFd == 0 && f.stdFileStatus == 0) = true := by decide +kernel
  obtain ⟨s, hs, hc⟩ := (Option.any_eq_true _ _).1 hrun
  simp only [Bool.and_eq_true, Option.any_eq_true, beq_iff_eq] at hc
  obtain ⟨hready, P, hP, hslot, f, hf, hnum, hstd⟩ := hc
  have huses : UsesFile (.read 0 (some 1) 1 readOk) := trivial
  refine ⟨s, hs, (not_usesNull_iff (reach_of_execAll startOne .refl hs) hready huses).2 ?_⟩
  -- descriptor 0 is standard input
  rintro ⟨-, -, r, g, ⟨-, -, -, Q, i, hQ, hi⟩, hwrong⟩
  have e : Q = P := Option.some.inj (hQ.symm.trans hP)
  subst e
  have hi0 : i = 0 := by
    by_contra hne
    obtain ⟨g', hg', hne'⟩ := hi.before 0 0 (Fin.pos_of_ne_zero hne) hslot
    have e : g' = f := Option.some.inj (hg'.symm.trans hf)
    subst e
    exact hne' hnum
  subst hi0
  have e : r = 0 := Option.some.inj (hi.slot.symm.trans hslot)
  subst e
  have e : g = f := Option.some.inj (hi.file.symm.trans hf)
  subst e
  omega

theorem not_safe_of_anyStep : ¬ ∀ s p req, Reach step anyStep boot s →
    userThread s p true = true → UsesFile req → ¬ UsesNull { s with curproc := p } req := by
  intro hall
  have hrun : ((execAll boot startOne).any fun s => userThread s 1 true &&
      match handle (.read 1 (some 1) 1 readOk) { s with curproc := 1 } with
      | .error e => e == .panic
      | .ok _ => false) = true := by decide +kernel
  obtain ⟨s, hs, hc⟩ := (Option.any_eq_true _ _).1 hrun
  obtain ⟨hready, hstop⟩ := Bool.and_eq_true_iff.1 hc
  refine hall s 1 (.read 1 (some 1) 1 readOk) (reach_of_execAll startOne .refl hs) hready trivial
    ⟨?_, trivial⟩
  cases h : handle (.read 1 (some 1) 1 readOk) { s with curproc := 1 } with
  | ok x => simp [h] at hstop
  | error e =>
      rw [h] at hstop
      have he : e = .panic := by simpa using hstop
      rw [← he]
      exact h

end Os161.Main
