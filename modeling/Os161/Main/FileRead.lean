import Os161.Syscall.CopyInOut
import Os161.Main.Console
import Os161.Main.Numbers
import Os161.Main.Locks

set_option autoImplicit false

/-!
# The bytes a file read shows

`read` on a data file, with its data. The bytes of the file are put into the front of
`read_buffer`, a block as long as the request, and the whole block is copied out. `readRun` gives
the user memory after the call and the answers that `sysRead` works with. What `VOP_READ` does is
outside: it fails, or it fills the front of its buffer with bytes of the file.
-/

namespace Os161.Main

open Os161.Lib.Program
open Os161.Lib.Runs
open Os161.Syscall
open Os161.Vfs

/-- `VOP_READ` of a file, by the offset and the size of the request. -/
structure VopRead where
  contents : List UInt8
  result : Int → Nat → Option ErrCode
  /-- The bytes put into the buffer. -/
  amount : Int → Nat → Nat
  amount_le : ∀ offset n, amount offset n ≤ min n (contents.length - offset.toNat)

/-- What `VOP_READ` puts into the front of the buffer. -/
def VopRead.filled (V : VopRead) (offset : Int) (n : Nat) : List UInt8 :=
  (V.contents.drop offset.toNat).take (V.amount offset n)

@[simp] theorem VopRead.length_filled (V : VopRead) (offset : Int) (n : Nat) :
    (V.filled offset n).length = V.amount offset n := by
  have := V.amount_le offset n
  simp only [VopRead.filled, List.length_take, List.length_drop]
  omega

/-- What a read does with its data. -/
structure ReadRun where
  answers : ReadEnv
  mem : UserMem

/-- The answers of a file read that gets these from `kmalloc`, `VOP_READ` and `copyout`. -/
def readAnswers (kmalloc : Bool) (vopRead : Int) (uioResid : Nat) (uioOffset copyout : Int) :
    ReadEnv :=
  { kmalloc := kmalloc, getch := fun _ => 0, copyoutstr := fun _ => 0, vopRead := vopRead
    uioResid := uioResid, uioOffset := uioOffset, copyout := copyout }

/-- `read_buffer` after `VOP_READ`. -/
def readBuffer (V : VopRead) (pos : Int) (block : Nat → UInt8) (n : Nat) : List UInt8 :=
  (List.range n).map (fill block (V.filled pos n))

/-- `read` of `n` bytes on the data file `f` at the position `pos`. -/
def readRun (f : File) (V : VopRead) (pos : Int) (kmalloc : Option (Nat → UInt8)) (buf n : UInt32)
    (u : UserMem) : ReadRun :=
  if f.canRead = false then { answers := readAnswers kmalloc.isSome 0 0 0 0, mem := u }
  else match kmalloc with
    | none => { answers := readAnswers false 0 0 0 0, mem := u }
    | some block =>
      let amount := (V.filled pos n.toNat).length
      match V.result pos n.toNat with
      | some e => { answers := readAnswers true e.val (n.toNat - amount) (pos + amount) 0, mem := u }
      | none =>
        -- the whole block is copied out
        match copyout (readBuffer V pos block n.toNat) buf u with
        | (.ok _, u') =>
            { answers := readAnswers true 0 (n.toNat - amount) (pos + amount) 0, mem := u' }
        | (.error e, u') =>
            { answers := readAnswers true 0 (n.toNat - amount) (pos + amount) e.code, mem := u' }

/-- The descriptor `fd` of the current process is open for the data file `f`, whose seek position
is `pos`, and nothing keeps a call on it from running. -/
structure OpenFile (s : Kernel) (fd : Int) (f : File) (c : CellRef) (pos : Int) : Prop where
  free : s.held = fun _ => none
  allocated : ∃ P, s.procs s.curproc = some P ∧
    ∀ i r, P.pFiletable.files i = some r → s.heap r ≠ none
  file : ∃ r, lookupFd s s.curproc fd = some r ∧ s.heap r = some f
  data : f.stdFileStatus = -1
  vnode : f.fileVnode ≠ none
  seek : f.seekPos = some c
  position : s.cells c = some pos

/-- A read that counts `ret` bytes has put these bytes of the file into the buffer, has left the
rest of the buffer alone, and has moved the position by `ret`. -/
structure CountsExactly (V : VopRead) (pos : Int) (c : CellRef) (buf n : UInt32) (u u' : UserMem)
    (ret : Int) (s' : Kernel) : Prop where
  file : ∀ i < ret.toNat, u' (buf + .ofNat i) = V.contents[pos.toNat + i]?
  rest : ∀ i, ret.toNat ≤ i → i < n.toNat → u' (buf + .ofNat i) = u (buf + .ofNat i)
  advance : s'.cells c = some (pos + ret)

/-- A read shows the file and nothing else, whatever the heap held before. -/
structure ShowsFileOnly (s : Kernel) (fd : Int) (f : File) (V : VopRead) (c : CellRef) (pos : Int)
    (buf n : UInt32) (u : UserMem) : Prop where
  counts : ∀ kmalloc ret s', Runs (sysRead fd (some buf.toNat) n.toNat
    (readRun f V pos kmalloc buf n u).answers) s ret s' → 0 ≤ ret →
      CountsExactly V pos c buf n u (readRun f V pos kmalloc buf n u).mem ret s'
  same : ∀ (block block' : Nat → UInt8) ret ret' s' s'',
    Runs (sysRead fd (some buf.toNat) n.toNat (readRun f V pos (some block) buf n u).answers)
      s ret s' →
    Runs (sysRead fd (some buf.toNat) n.toNat (readRun f V pos (some block') buf n u).answers)
      s ret' s'' →
    (readRun f V pos (some block) buf n u).mem = (readRun f V pos (some block') buf n u).mem

section Reads

variable {s s' : Kernel} {fd ret pos : Int} {f : File} {V : VopRead} {c : CellRef} {buf n : UInt32}
  {u : UserMem}

/-- A file read that does not fail has moved the position to where `VOP_READ` got. -/
theorem runs_sysRead_of_nonneg {b m : Nat} {env : ReadEnv} (hopen : OpenFile s fd f c pos)
    (hvop : 0 ≤ env.vopRead) (h : Runs (sysRead fd (some b) m env) s ret s') (hret : 0 ≤ ret) :
    f.canRead = true ∧ env.kmalloc = true ∧ env.vopRead = 0 ∧
      env.copyout ≠ Errno.EFAULT.code ∧ ret = (m : Int) - env.uioResid ∧
      s'.cells c = some env.uioOffset := by
  obtain ⟨r, hlook, hf⟩ := hopen.file
  have hneg : ∀ e, ret ≠ fail e := fun e he => by
    have := fail_neg e
    omega
  simp only [sysRead, reduceCtorEq, if_false, runs_bind, runs_curproc, runs_lockAcquire] at h
  obtain ⟨p, s₁, ⟨rfl, rfl⟩, _, s₂, ⟨-, rfl⟩, x, s₃, hx, h⟩ := h
  obtain ⟨rfl, rfl⟩ := runs_pFiletableLookup hx
  generalize hy : lookupFd _ _ _ = y at h
  obtain rfl : y = some r := hy.symm.trans hlook
  simp only [readFound, runs_bind, runs_lockFile, runs_readFile, runs_readTable] at h
  obtain ⟨_, s₄, ⟨-, -, rfl⟩, f', s₅, ⟨hf', rfl⟩, t, s₆, ⟨-, rfl⟩, h⟩ := h
  obtain rfl : f = f' := Option.some.inj (hf.symm.trans hf')
  have hstd : f.stdFileStatus ≠ 0 := by simp [hopen.data]
  simp only [hstd, if_false, runs_ite, runs_bind, runs_pure] at h
  rcases h with ⟨-, _, _, -, _, _, -, rfl, -⟩ | ⟨hread, _, s₇, hrel, h⟩
  · exact absurd rfl (hneg .EBADF)
  obtain ⟨-, rfl⟩ := (runs_lockRelease _ _ _ _).1 hrel
  rcases h with ⟨-, rfl, -⟩ | ⟨hk, h⟩
  · exact absurd rfl (hneg .ENOMEM)
  obtain ⟨v, hv⟩ := Option.ne_none_iff_exists'.1 hopen.vnode
  simp only [readData, hopen.seek, hv, runs_bind, runs_readCell, runs_ite, runs_pure,
    runs_writeCell] at h
  obtain ⟨x, s₈, ⟨hx, rfl⟩, h⟩ := h
  rcases h with ⟨hne, _, _, -, rfl, -⟩ | ⟨hvop', ⟨htst, _, _, -, rfl, -⟩ | ⟨htst, h⟩⟩
  · omega
  · rw [htst] at hneg
    exact absurd rfl (hneg .EFAULT)
  · obtain ⟨_, s₉, ⟨-, rfl⟩, _, s₁₀, hrel, rfl, rfl⟩ := h
    obtain ⟨-, rfl⟩ := (runs_lockRelease _ _ _ _).1 hrel
    exact ⟨by simpa using hread, by simpa using hk, not_not.1 hvop', htst, rfl, by simp⟩

/-- Nothing keeps the call from returning. -/
theorem sysRead_returns (hopen : OpenFile s fd f c pos) (b m : Nat) (env : ReadEnv) :
    ∃ ret s', Runs (sysRead fd (some b) m env) s ret s' := by
  obtain ⟨r, hlook, hf⟩ := hopen.file
  obtain ⟨P, hP, halloc⟩ := hopen.allocated
  obtain ⟨v, hv⟩ := Option.ne_none_iff_exists'.1 hopen.vnode
  have hstd : f.stdFileStatus ≠ 0 := by simp [hopen.data]
  have hfound : sysRead fd (some b) m env s =
      (do lockAcquire (.ops s.curproc); readFound s.curproc r m env) s :=
    lookup_bind (k := readFound s.curproc r m env) hP (by rw [hopen.free]) halloc hlook rfl
  unfold Runs
  rw [hfound]
  show ∃ ret s', Runs (do lockAcquire (.ops s.curproc); readFound s.curproc r m env) s ret s'
  by_cases hread : f.canRead = false
  · simp [readFound, hopen.free, hf, hP, hread]
  by_cases hk : env.kmalloc = false
  · simp [readFound, hopen.free, hf, hP, hread, hstd, hk]
  · simp only [readFound, readData, runs_bind, runs_lockAcquire, runs_lockFile, runs_readFile]
    simp [hopen.free, hf, hP, hread, hstd, hk, hopen.seek, hv, hopen.position]
    by_cases hvop : env.vopRead = 0
    · by_cases htst : env.copyout = Errno.EFAULT.code <;> simp [hvop, htst]
    · simp [hvop]

/-- The user memory after a read of a file that can be read, for which `VOP_READ` succeeds. -/
theorem readRun_mem (hread : f.canRead = true) (hres : V.result pos n.toNat = none)
    (block : Nat → UInt8) (x : UInt32) :
    (readRun f V pos (some block) buf n u).mem x =
      if buf.toNat ≤ x.toNat ∧ x.toNat - buf.toNat < stored u buf n then
        (readBuffer V pos block n.toNat)[x.toNat - buf.toNat]?
      else u x := by
  have hlen : (readBuffer V pos block n.toNat).length = n.toNat := by simp [readBuffer]
  rw [← copyout_snd hlen x]
  simp only [readRun, hread, Bool.true_eq_false, if_false, hres]
  rcases copyout (readBuffer V pos block n.toNat) buf u with ⟨_ | _, u'⟩ <;> rfl

/-- What stands in `read_buffer`: the bytes of the file, then what the block held before. -/
theorem readBuffer_getElem {block : Nat → UInt8} {i : Nat} (hi : i < n.toNat) :
    (readBuffer V pos block n.toNat)[i]? =
      if i < V.amount pos n.toNat then V.contents[pos.toNat + i]? else some (block i) := by
  have hle := V.amount_le pos n.toNat
  simp only [readBuffer, List.getElem?_map, List.getElem?_range hi, Option.map_some, fill]
  split_ifs with h
  · have hlt : pos.toNat + i < V.contents.length := by omega
    rw [List.getD_eq_getElem?_getD, VopRead.filled, List.getElem?_take_of_lt h, List.getElem?_drop,
      List.getElem?_eq_getElem hlt, Option.getD_some]
  · rw [List.getD_eq_getElem?_getD, List.getElem?_eq_none (by simpa using h), Option.getD_none]

/-- The address of a byte that is stored. -/
theorem toNat_add_of_lt_stored {i : Nat} (hi : i < stored u buf n) :
    (buf + .ofNat i).toNat = buf.toNat + i := by
  have hlt : i < n.toNat := Nat.lt_of_lt_of_le hi (stored_le u buf n)
  unfold stored at hi
  split_ifs at hi with hc
  · have hbelow := (copycheck_eq_len.1 hc).2
    have htop : userspacetop.toNat = 2 ^ 31 := rfl
    have hi' : (UInt32.ofNat i).toNat = i :=
      UInt32.toNat_ofNat_of_lt' (Nat.lt_trans hlt n.toNat_lt)
    rw [UInt32.toNat_add, hi']
    exact Nat.mod_eq_of_lt (by omega)
  · exact absurd hi (Nat.not_lt_zero i)

/-- What a read that counts has met: everything has been copied out. -/
theorem stored_of_counts {kmalloc : Option (Nat → UInt8)} (hopen : OpenFile s fd f c pos)
    (h : Runs (sysRead fd (some buf.toNat) n.toNat (readRun f V pos kmalloc buf n u).answers)
      s ret s') (hret : 0 ≤ ret) :
    ∃ block, kmalloc = some block ∧ f.canRead = true ∧ V.result pos n.toNat = none ∧
      stored u buf n = n.toNat ∧ ret = n.toNat - (n.toNat - V.amount pos n.toNat : Nat) ∧
      s'.cells c = some (pos + V.amount pos n.toNat) := by
  have hvop : 0 ≤ (readRun f V pos kmalloc buf n u).answers.vopRead := by
    unfold readRun
    split_ifs
    · exact le_refl 0
    · cases kmalloc with
      | none => exact le_refl 0
      | some block =>
          cases hres : V.result pos n.toNat with
          | some e =>
              exact le_of_lt e.property
          | none =>
              simp only
              rcases copyout (readBuffer V pos block n.toNat) buf u with ⟨_ | _, u'⟩ <;>
                exact le_refl 0
  obtain ⟨hread, hk, hvop, htst, hret, hcell⟩ := runs_sysRead_of_nonneg hopen hvop h hret
  simp only [readRun, hread, Bool.true_eq_false, if_false] at hk hvop htst hret hcell
  cases kmalloc with
  | none => simp [readAnswers] at hk
  | some block =>
      cases hres : V.result pos n.toNat with
      | some e =>
          simp only [hres, readAnswers] at hvop
          exact absurd hvop (ne_of_gt e.property)
      | none =>
          have hlen : (readBuffer V pos block n.toNat).length = n.toNat := by simp [readBuffer]
          have hfst := copyout_fst (u := u) (a := buf) hlen
          simp only [hres] at htst hret hcell
          rcases hout : copyout (readBuffer V pos block n.toNat) buf u with ⟨e | _, u'⟩
          · have he : e = .EFAULT := copyout_error (congrArg Prod.fst hout)
            simp only [hout, readAnswers] at htst
            exact absurd (congrArg Errno.code he) htst
          · simp only [hout, readAnswers, VopRead.length_filled] at hret hcell
            exact ⟨block, rfl, hread, rfl, (hfst.1 (by rw [hout])).2, hret, hcell⟩

/-- When `copyout` stores more than `VOP_READ` has filled, two heaps that differ in the first byte
behind it give two different user memories. -/
theorem not_showsFileOnly (hopen : OpenFile s fd f c pos) (hread : f.canRead = true)
    (hres : V.result pos n.toNat = none) (hlt : V.amount pos n.toNat < stored u buf n) :
    ¬ ShowsFileOnly s fd f V c pos buf n u := by
  intro h
  obtain ⟨ret, s', hrun⟩ := sysRead_returns hopen buf.toNat n.toNat
    (readRun f V pos (some fun _ => 0) buf n u).answers
  obtain ⟨ret', s'', hrun'⟩ := sysRead_returns hopen buf.toNat n.toNat
    (readRun f V pos (some fun _ => 1) buf n u).answers
  have hmem := congrFun (h.same _ _ ret ret' s' s'' hrun hrun')
    (buf + .ofNat (V.amount pos n.toNat))
  have hin : V.amount pos n.toNat < n.toNat := Nat.lt_of_lt_of_le hlt (stored_le _ _ _)
  simp only [readRun_mem hread hres, toNat_add_of_lt_stored hlt, Nat.add_sub_cancel_left,
    Nat.le_add_right, true_and, if_pos hlt, readBuffer_getElem hin, Nat.lt_irrefl, if_false] at hmem
  exact absurd hmem (by decide)

/-- When `copyout` stores no more than `VOP_READ` has filled, a read that counts is exact. -/
theorem countsExactly_of_stored_le {kmalloc : Option (Nat → UInt8)}
    (hopen : OpenFile s fd f c pos) (hle : f.canRead = true → V.result pos n.toNat = none →
      stored u buf n ≤ V.amount pos n.toNat)
    (h : Runs (sysRead fd (some buf.toNat) n.toNat (readRun f V pos kmalloc buf n u).answers)
      s ret s') (hret : 0 ≤ ret) :
    CountsExactly V pos c buf n u (readRun f V pos kmalloc buf n u).mem ret s' := by
  have hamount := V.amount_le pos n.toNat
  obtain ⟨block, rfl, hread, hres, hst, rfl, hcell⟩ := stored_of_counts hopen h hret
  -- everything that is copied out has been filled
  have hfull : V.amount pos n.toNat = n.toNat := by
    have := hle hread hres
    omega
  rw [hfull, Nat.sub_self]
  refine ⟨fun i hi => ?_, fun i hi hi' => ?_, ?_⟩
  · have hi' : i < n.toNat := by omega
    have hlt : i < stored u buf n := by omega
    rw [readRun_mem hread hres, toNat_add_of_lt_stored hlt, Nat.add_sub_cancel_left,
      if_pos ⟨Nat.le_add_right _ _, hlt⟩, readBuffer_getElem hi', if_pos (by omega)]
  · omega
  · rw [hcell, hfull]
    simp

/-- When `copyout` stores no more than `VOP_READ` has filled, nothing else of the block is seen. -/
theorem readRun_mem_congr (hle : f.canRead = true → V.result pos n.toNat = none →
      stored u buf n ≤ V.amount pos n.toNat) (block block' : Nat → UInt8) :
    (readRun f V pos (some block) buf n u).mem = (readRun f V pos (some block') buf n u).mem := by
  by_cases hread : f.canRead = false
  · simp [readRun, hread]
  cases hres : V.result pos n.toNat with
  | some e => simp [readRun, hread, hres]
  | none =>
      have hread' := Bool.eq_true_of_not_eq_false hread
      have := hle hread' hres
      funext x
      rw [readRun_mem hread' hres, readRun_mem hread' hres]
      split_ifs with hx
      · have hlt : x.toNat - buf.toNat < n.toNat := Nat.lt_of_lt_of_le hx.2 (stored_le _ _ _)
        rw [readBuffer_getElem hlt, readBuffer_getElem hlt, if_pos (by omega), if_pos (by omega)]
      · rfl

/-- `read` shows nothing but the file when it is refused, when `VOP_READ` fails, and when
`copyout` stores no more than `VOP_READ` has filled; otherwise it shows old heap memory. -/
theorem showsFileOnly_iff (hopen : OpenFile s fd f c pos) :
    ShowsFileOnly s fd f V c pos buf n u ↔
      f.canRead = false ∨ V.result pos n.toNat ≠ none ∨
        stored u buf n ≤ V.amount pos n.toNat := by
  constructor
  · intro h
    by_contra hnot
    simp only [not_or, Bool.not_eq_false, not_not, Nat.not_le] at hnot
    obtain ⟨hread, hres, hlt⟩ := hnot
    exact not_showsFileOnly hopen hread hres hlt h
  · intro h
    have hle : f.canRead = true → V.result pos n.toNat = none →
        stored u buf n ≤ V.amount pos n.toNat := by
      intro hread hres
      rcases h with h | h | h
      · exact absurd hread (by simp [h])
      · exact absurd hres h
      · exact h
    exact ⟨fun kmalloc ret s' => countsExactly_of_stored_le hopen hle,
      fun block block' ret ret' s' s'' _ _ => readRun_mem_congr hle block block'⟩

end Reads

/-! ## A file of two bytes -/

/-- `VOP_READ` of a file with the two bytes `h` and `i`. -/
def twoBytes : VopRead where
  contents := [104, 105]
  result := fun _ _ => none
  amount := fun offset n => min n (2 - offset.toNat)
  amount_le := fun _ _ => le_refl _

/-- A page of user memory that holds zeros. -/
def zeroPage : UserMem := fun a => if 4096 ≤ a ∧ a < 8192 then some 0 else none

/-- Some actions open the descriptor 3 for a data file that passes the test `p`. -/
theorem exec_openFile {as : List Action} {p : File → Bool}
    (hrun : ((execChecked sensibleMode boot as).any fun s => userThread s 1 true &&
      (s.procs 1).any (fun P => (List.finRange openMax).all fun i =>
        (P.pFiletable.files i).all fun r => (s.heap r).isSome) &&
      (lookupFd s 1 3).any fun r => (s.heap r).any fun f => f.stdFileStatus == -1 &&
        f.fileVnode.isSome && p f && f.seekPos.any fun c => s.cells c == some 0) = true) :
    ∃ s f c, execChecked sensibleMode boot as = some s ∧ userThread s 1 true = true ∧
      OpenFile { s with curproc := 1 } 3 f c 0 ∧ p f = true := by
  obtain ⟨s, hs, hc⟩ := (Option.any_eq_true _ _).1 hrun
  simp only [Bool.and_eq_true, Option.any_eq_true, beq_iff_eq, List.all_eq_true] at hc
  obtain ⟨⟨huser, P, hP, halloc⟩, r, hlook, f, hf, ⟨⟨hstd, hv⟩, hp⟩, c, hseek, hpos⟩ := hc
  refine ⟨s, f, c, hs, huser, ⟨?_, ⟨P, hP, ?_⟩, ⟨r, hlook, hf⟩, hstd, ?_, hseek, hpos⟩, hp⟩
  · exact held_of_reach (s := s) (reach_of_execChecked (fun _ _ _ hc => hc) as .refl hs)
  · intro i r hi
    have h := halloc i (List.mem_finRange i)
    rw [hi] at h
    exact Option.isSome_iff_ne_none.1 h
  · exact Option.isSome_iff_ne_none.1 hv

theorem openOne_openFile : ∃ s f c, execChecked sensibleMode boot openOne = some s ∧
    userThread s 1 true = true ∧ OpenFile { s with curproc := 1 } 3 f c 0 ∧ f.canRead = true :=
  exec_openFile (by decide +kernel)

/-- Reading two bytes of the file shows nothing else. -/
theorem showsFileOnly_twoBytes : ∃ s f c, execChecked sensibleMode boot openOne = some s ∧
    ShowsFileOnly { s with curproc := 1 } 3 f twoBytes c 0 4096 2 zeroPage := by
  obtain ⟨s, f, c, hs, -, hopen, -⟩ := openOne_openFile
  exact ⟨s, f, c, hs, (showsFileOnly_iff hopen).2 (.inr (.inr (by decide)))⟩

/-- Reading four bytes of it shows two bytes of the heap. -/
theorem not_showsFileOnly_of_openFile : ¬ ∀ s p fd f V c pos buf n u, Reach step anyStep boot s →
    userThread s p true = true → OpenFile { s with curproc := p } fd f c pos →
    ShowsFileOnly { s with curproc := p } fd f V c pos buf n u := by
  intro h
  obtain ⟨s, f, c, hs, huser, hopen, hread⟩ := openOne_openFile
  have hreach : Reach step anyStep boot s :=
    (reach_of_execChecked (fun _ _ _ hc => hc) openOne .refl hs).mono fun _ _ _ => trivial
  exact not_showsFileOnly hopen hread rfl (by decide)
    (h s 1 3 f twoBytes c 0 4096 4 zeroPage hreach huser hopen)

end Os161.Main
