import Os161.Main.Calls

set_option autoImplicit false

/-!
# Interleaved read and write

`read` and `write` of several processes, split where another process can run: at every operation
on an `ops_lock` or a `file_lock`, at the read of `*seek_pos` (`uio_kinit`), at the vnode operation
and at the store of `*seek_pos`. The tables and the open files are those of a kernel state in which
no call is going on; `read` and `write` change neither.

The `file_lock` sits in the `struct file` and the seek position in a cell of its own. `fork` shares
the `struct file`, so calls on descriptors shared that way exclude each other from the read of
`*seek_pos` to the store. `dup2` makes a second `struct file` with a lock of its own on the same
cell, and calls through the two do not.

`log` keeps the transfers, for the statements about whole runs. It has no influence on what the
processes do.
-/

namespace Os161.Transfers

open Os161.Lib.Program
open Os161.Lib.Runs
open Os161.Main
open Os161.Vfs
open Os161.Syscall

/-! ## Program points -/

/-- A call with a buffer that is not NULL, and the answers it gets. -/
inductive Call where
  | read (fd : Int) (buflen : Nat) (env : ReadEnv)
  | write (fd : Int) (buflen : Nat) (env : WriteEnv)

def Call.fd : Call → Int
  | .read fd _ _ => fd
  | .write fd _ _ => fd

/-- `myuio.uio_offset` after the vnode operation. -/
def Call.uioOffset : Call → Int
  | .read _ _ env => env.uioOffset
  | .write _ _ env => env.uioOffset

/-- `buflen - myuio.uio_resid`, what a call that succeeds returns. -/
def Call.count : Call → Int
  | .read _ buflen env => (buflen : Int) - env.uioResid
  | .write _ buflen env => (buflen : Int) - env.uioResid

/-- What a process is about to do. -/
inductive Pc where
  /-- It is in user mode; its last call has returned `ret`. -/
  | user (ret : Int)
  /-- `lock_acquire(curproc->ops_lock)`. -/
  | own (c : Call)
  /-- `p_filetable_lookup`. -/
  | search (c : Call)
  /-- `lock_acquire(f->file_lock)`. -/
  | lock (c : Call) (r : FileRef)
  /-- The tests of the file, and the first release after them. -/
  | test (c : Call) (r : FileRef)
  /-- `lock_release(curproc->ops_lock)` before the return. -/
  | leave (ret : Int)
  /-- The allocation of the buffer, and `copyin` in `write`. -/
  | buffer (c : Call) (r : FileRef)
  /-- `uio_kinit` with `*f->seek_pos`. -/
  | load (c : Call) (r : FileRef)
  /-- `VOP_READ` or `VOP_WRITE` at the offset `off`, and `copyout` in `read`. -/
  | vop (c : Call) (r : FileRef) (x : CellRef) (off : Int)
  /-- `*f->seek_pos = myuio.uio_offset`. -/
  | store (c : Call) (r : FileRef) (x : CellRef) (off : Int)
  /-- `lock_release(f->file_lock)` before the return. -/
  | unlock (r : FileRef) (ret : Int)

/-- A transfer: the seek position, the offset it began at, and the number of bytes that the call
returns. -/
structure Transfer where
  cell : CellRef
  start : Int
  count : Int
  deriving DecidableEq, Repr

/-- What a step does besides moving the process on. -/
inductive Op where
  | nop
  | take (l : LockName)
  | give (l : LockName)
  | store (t : Transfer) (offset : Int)

/-! ## The calls -/

/-- What `read` from the console returns. -/
def readConsoleRet (buflen : Nat) (env : ReadEnv) : Int :=
  if env.kmalloc then
    let tst := env.copyoutstr (readLine env.getch buflen 0)
    -- `copyoutstr` with another error returns it as a count
    if tst = Errno.EFAULT.code then -1 * tst else tst
  else fail .ENOMEM

/-- What `write` to the console returns. -/
def writeConsoleRet (env : WriteEnv) : Int :=
  if env.kmalloc = false then fail .ENOMEM
  -- only `EFAULT` of `copyinstr` is looked at
  else if env.copyinstr = Errno.EFAULT.code then -1 * env.copyinstr
  -- `strlen` of the buffer, after `kfree`
  else (env.strlenFreed : Int) + 1

/-- The tests of the file `f` at `r` in a process with the table `t`. -/
def afterTest (p : ProcRef) (r : FileRef) (f : File) (t : PFileTable) : Call → Op × Pc
  | .read fd buflen env =>
      if f.canRead = false then (.give (.file r), .leave (fail .EBADF))
      -- descriptors 1 and 2 go on as regular files do
      else if f.stdFileStatus = 0 then
        (.give (.file r),
          .leave (if t.stdinOpen then readConsoleRet buflen env else fail .EBADF))
      else (.give (.ops p), .buffer (.read fd buflen env) r)
  | .write fd buflen env =>
      if f.canWrite = false then (.give (.file r), .leave (fail .EBADF))
      else if f.stdFileStatus = 1 ∨ f.stdFileStatus = 2 then
        -- the flag of standard output itself is not tested
        if t.stderrOpen ∨ t.stdinOpen then (.give (.ops p), .unlock r (writeConsoleRet env))
        else (.give (.file r), .leave (fail .EBADF))
      else (.give (.ops p), .buffer (.write fd buflen env) r)

/-- The buffer: `read` without memory returns with the `file_lock`. -/
def afterBuffer (r : FileRef) : Call → Pc
  | .read fd buflen env =>
      -- the `ops_lock` has been released before, the `file_lock` has not
      if env.kmalloc = false then .user (fail .ENOMEM) else .load (.read fd buflen env) r
  | .write fd buflen env =>
      if env.kmalloc = false then .unlock r (fail .ENOMEM)
      else if env.copyin = Errno.EFAULT.code then .unlock r (-1 * env.copyin)
      else .load (.write fd buflen env) r

/-- The vnode operation at `off`, on the file `r` with the seek position `x`. -/
def afterVop (r : FileRef) (x : CellRef) (off : Int) : Call → Pc
  | .read fd buflen env =>
      if env.vopRead ≠ 0 then .unlock r (-1 * env.vopRead)
      else if env.copyout = Errno.EFAULT.code then .unlock r (-1 * env.copyout)
      else .store (.read fd buflen env) r x off
  | .write fd buflen env =>
      if env.vopWrite ≠ 0 then .unlock r (-1 * env.vopWrite)
      else .store (.write fd buflen env) r x off

/-- The next step of the process `p`. A step through a pointer that is NULL or freed has no
result. -/
def advance (k : Kernel) (p : ProcRef) : Pc → Option (Op × Pc)
  | .user _ => none
  | .own c => some (.take (.ops p), .search c)
  | .search c =>
      match pFiletableLookup p c.fd { k with curproc := p } with
      | .ok (none, _) => some (.nop, .leave (fail .EBADF))
      | .ok (some r, _) => some (.nop, .lock c r)
      | .error _ => none
  | .lock c r => (k.heap r).map fun _ => (.take (.file r), .test c r)
  | .test c r => (k.heap r).bind fun f => (k.procs p).map fun P => afterTest p r f P.pFiletable c
  | .leave ret => some (.give (.ops p), .user ret)
  | .buffer c r => some (.nop, afterBuffer r c)
  -- both pointers are followed here: to `*seek_pos`, and to the vnode
  | .load c r =>
      (k.heap r).bind fun f => f.seekPos.bind fun x => f.fileVnode.bind fun _ =>
        (k.cells x).map fun off => (.nop, .vop c r x off)
  | .vop c r x off => some (.nop, afterVop r x off c)
  -- `uio_offset` is what the vnode operation has left, not `off` plus the count
  | .store c r x off =>
      some (.store { cell := x, start := off, count := c.count } c.uioOffset, .unlock r c.count)
  | .unlock r ret => some (.give (.file r), .user ret)

/-! ## The machine -/

/-- The kernel state, what every process is about to do, and the transfers so far. -/
structure Machine where
  kernel : Kernel
  pcs : ProcRef → Pc
  log : List Transfer

/-- No call is going on. -/
def start (s : Kernel) : Machine := { kernel := s, pcs := fun _ => .user 0, log := [] }

/-- An operation of the process `p`. Taking a lock that is held has to wait. -/
def Op.apply (p : ProcRef) (m : Machine) : Op → Option Machine
  | .nop => some m
  | .take l =>
      if m.kernel.held l = none then
        some { m with kernel := { m.kernel with held := Function.update m.kernel.held l (some p) } }
      else none
  | .give l =>
      if m.kernel.held l = some p then
        some { m with kernel := { m.kernel with held := Function.update m.kernel.held l none } }
      else none
  | .store t offset =>
      (m.kernel.cells t.cell).map fun _ =>
        { m with
          kernel := { m.kernel with
            cells := Function.update m.kernel.cells t.cell (some offset) }
          log := m.log ++ [t] }

/-- The process `p` goes to `pc`. -/
def Machine.goto (m : Machine) (p : ProcRef) (pc : Pc) : Machine :=
  { m with pcs := Function.update m.pcs p pc }

@[simp] theorem Machine.goto_pcs_self (m : Machine) (p : ProcRef) (pc : Pc) :
    (m.goto p pc).pcs p = pc :=
  Function.update_self _ _ _

@[simp] theorem Machine.goto_pcs_of_ne (m : Machine) {p q : ProcRef} (h : q ≠ p) (pc : Pc) :
    (m.goto p pc).pcs q = m.pcs q :=
  Function.update_of_ne h _ _

theorem Op.apply_pcs {p : ProcRef} {m m₁ : Machine} {op : Op} (h : op.apply p m = some m₁) :
    m₁.pcs = m.pcs := by
  cases op with
  | nop =>
      cases h
      rfl
  | take l =>
      simp only [Op.apply] at h
      split_ifs at h
      cases h
      rfl
  | give l =>
      simp only [Op.apply] at h
      split_ifs at h
      cases h
      rfl
  | store t offset =>
      obtain ⟨-, -, rfl⟩ := Option.map_eq_some_iff.1 h
      rfl

/-- What a process does next: a step of the call it is in, or a new call, with a buffer or with
NULL. -/
inductive Move where
  | tick
  | call (c : Call)
  | callNull (c : Call)

/-- A move and the process that makes it. -/
structure Act where
  caller : ProcRef
  move : Move

/-- One step, computed. -/
def exec (m : Machine) (a : Act) : Option Machine :=
  match a.move, m.pcs a.caller with
  | .tick, pc =>
      (advance m.kernel a.caller pc).bind fun x =>
        (x.1.apply a.caller m).map fun m' => m'.goto a.caller x.2
  | .call c, .user _ =>
      if userThread m.kernel a.caller true then some (m.goto a.caller (.own c)) else none
  | .callNull _, .user _ =>
      if userThread m.kernel a.caller true then some (m.goto a.caller (.user (fail .EFAULT)))
      else none
  | _, _ => none

/-- One step. -/
def step (m : Machine) (a : Act) (m' : Machine) : Prop := exec m a = some m'

/-! ## What a step can do -/

/-- The file whose lock the process holds in its call. -/
def Pc.file : Pc → Option FileRef
  | .test _ r => some r
  | .buffer _ r => some r
  | .load _ r => some r
  | .vop _ r _ _ => some r
  | .store _ r _ _ => some r
  | .unlock r _ => some r
  | _ => none

/-- The seek position that the process has read and not yet stored, with what it has read. -/
def Pc.loaded : Pc → Option (CellRef × Int)
  | .vop _ _ x off => some (x, off)
  | .store _ _ x off => some (x, off)
  | _ => none

/-- The steps of a call, by what they do to the locks of files and to seek positions. -/
inductive Does (k : Kernel) (p : ProcRef) : Pc → Op → Pc → Prop where
  /-- Nothing, besides the `ops_lock`. -/
  | quiet {pc pc' : Pc} {op : Op} : op = .nop ∨ op = .take (.ops p) ∨ op = .give (.ops p) →
      pc'.file = pc.file ∨ pc'.file = none → pc'.loaded = none → Does k p pc op pc'
  | lock {pc pc' : Pc} {r : FileRef} : pc'.file = some r → pc'.loaded = none →
      Does k p pc (.take (.file r)) pc'
  | unlock {pc pc' : Pc} {r : FileRef} : pc'.file = none → pc'.loaded = none →
      Does k p pc (.give (.file r)) pc'
  | load {c : Call} {r : FileRef} {f : File} {x : CellRef} {off : Int} : k.heap r = some f →
      f.seekPos = some x → k.cells x = some off → Does k p (.load c r) .nop (.vop c r x off)
  | transfer {c : Call} {r : FileRef} {x : CellRef} {off : Int} :
      afterVop r x off c = .store c r x off → Does k p (.vop c r x off) .nop (.store c r x off)
  | store {c : Call} {r : FileRef} {x : CellRef} {off : Int} :
      Does k p (.store c r x off) (.store { cell := x, start := off, count := c.count } c.uioOffset)
        (.unlock r c.count)

section Steps

variable {k : Kernel} {p : ProcRef} {op : Op} {pc pc' : Pc}

theorem does_of_test {c : Call} {r : FileRef} {f : File} {t : PFileTable}
    (h : afterTest p r f t c = (op, pc')) : Does k p (.test c r) op pc' := by
  cases c with
  | read fd buflen env =>
      simp only [afterTest] at h
      split_ifs at h
      · cases h
        exact .unlock rfl rfl
      · cases h
        exact .unlock rfl rfl
      · cases h
        exact .unlock rfl rfl
      · cases h
        exact .quiet (.inr (.inr rfl)) (.inl rfl) rfl
  | write fd buflen env =>
      simp only [afterTest] at h
      split_ifs at h
      · cases h
        exact .unlock rfl rfl
      · cases h
        exact .quiet (.inr (.inr rfl)) (.inl rfl) rfl
      · cases h
        exact .unlock rfl rfl
      · cases h
        exact .quiet (.inr (.inr rfl)) (.inl rfl) rfl

theorem does_of_buffer (c : Call) (r : FileRef) : Does k p (.buffer c r) .nop (afterBuffer r c) := by
  cases c with
  | read fd buflen env =>
      simp only [afterBuffer]
      split_ifs
      · exact .quiet (.inl rfl) (.inr rfl) rfl
      · exact .quiet (.inl rfl) (.inl rfl) rfl
  | write fd buflen env =>
      simp only [afterBuffer]
      split_ifs
      · exact .quiet (.inl rfl) (.inl rfl) rfl
      · exact .quiet (.inl rfl) (.inl rfl) rfl
      · exact .quiet (.inl rfl) (.inl rfl) rfl

theorem does_of_vop (c : Call) (r : FileRef) (x : CellRef) (off : Int) :
    Does k p (.vop c r x off) .nop (afterVop r x off c) := by
  cases c with
  | read fd buflen env =>
      simp only [afterVop]
      split_ifs with hvop hcopy
      · exact .quiet (.inl rfl) (.inl rfl) rfl
      · exact .quiet (.inl rfl) (.inl rfl) rfl
      · exact .transfer (by simp only [afterVop, if_neg hvop, if_neg hcopy])
  | write fd buflen env =>
      simp only [afterVop]
      split_ifs with hvop
      · exact .quiet (.inl rfl) (.inl rfl) rfl
      · exact .transfer (by simp only [afterVop, if_neg hvop])

/-- Every step of a call is one of these. -/
theorem does_of_advance (h : advance k p pc = some (op, pc')) : Does k p pc op pc' := by
  cases pc with
  | user ret => cases h
  | own c =>
      cases h
      exact .quiet (.inr (.inl rfl)) (.inl rfl) rfl
  | search c =>
      simp only [advance] at h
      split at h
      · cases h
        exact .quiet (.inl rfl) (.inl rfl) rfl
      · cases h
        exact .quiet (.inl rfl) (.inl rfl) rfl
      · cases h
  | lock c r =>
      obtain ⟨f, -, h⟩ := Option.map_eq_some_iff.1 h
      cases h
      exact .lock rfl rfl
  | test c r =>
      obtain ⟨f, -, h⟩ := Option.bind_eq_some_iff.1 h
      obtain ⟨P, -, h⟩ := Option.map_eq_some_iff.1 h
      exact does_of_test h
  | leave ret =>
      cases h
      exact .quiet (.inr (.inr rfl)) (.inl rfl) rfl
  | buffer c r =>
      cases h
      exact does_of_buffer c r
  -- the only step that reads a seek position
  | load c r =>
      obtain ⟨f, hf, h⟩ := Option.bind_eq_some_iff.1 h
      obtain ⟨x, hx, h⟩ := Option.bind_eq_some_iff.1 h
      obtain ⟨v, -, h⟩ := Option.bind_eq_some_iff.1 h
      obtain ⟨off, hoff, h⟩ := Option.map_eq_some_iff.1 h
      cases h
      exact .load hf hx hoff
  -- after an error the call does not store
  | vop c r x off =>
      cases h
      exact does_of_vop c r x off
  | store c r x off =>
      cases h
      exact .store
  | unlock r ret =>
      cases h
      exact .unlock rfl rfl

/-- Everything a step can do: begin a call, or do an operation of the call the process is in. -/
theorem step_cases {m m' : Machine} {a : Act} (h : step m a m') :
    (∃ pc, pc.file = none ∧ pc.loaded = none ∧ m' = m.goto a.caller pc ∧
      ∃ ret, m.pcs a.caller = .user ret) ∨
      ∃ op pc m₁, a.move = .tick ∧ Does m.kernel a.caller (m.pcs a.caller) op pc ∧
        op.apply a.caller m = some m₁ ∧ m' = m₁.goto a.caller pc := by
  obtain ⟨p, move⟩ := a
  unfold step exec at h
  cases move with
  | tick =>
      obtain ⟨x, hx, h⟩ := Option.bind_eq_some_iff.1 h
      obtain ⟨m₁, hm₁, rfl⟩ := Option.map_eq_some_iff.1 h
      exact .inr ⟨x.1, x.2, m₁, rfl, does_of_advance hx, hm₁, rfl⟩
  -- a new call begins in user mode only
  | call c =>
      simp only at h
      split at h
      · cases ‹Move.call c = Move.tick›
      · rename_i c' ret hmove hpc
        split_ifs at h
        cases h
        exact .inl ⟨.own _, rfl, rfl, rfl, ret, hpc⟩
      · cases ‹Move.call c = Move.callNull _›
      · cases h
  | callNull c =>
      simp only at h
      split at h
      · cases ‹Move.callNull c = Move.tick›
      · cases ‹Move.callNull c = Move.call _›
      · rename_i c' ret hmove hpc
        split_ifs at h
        cases h
        exact .inl ⟨.user _, rfl, rfl, rfl, ret, hpc⟩
      · cases h

end Steps

end Os161.Transfers
