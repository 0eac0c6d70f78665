import Os161.Main.FileRead

set_option autoImplicit false

/-!
# The characters a console read gives

The part of `read` that serves standard input, with its data. The line is collected at the front of
`read_buffer`, a block that still holds what was in it before, and the block is copied out as a
string of at most `buflen` bytes. The call returns the error number of that copy, or `0`.
-/

namespace Os161.Main

open Os161.Lib.Program
open Os161.Lib.Runs
open Os161.Syscall
open Os161.Vfs

/-- The characters that end a line. -/
def LineEnd (c : UInt8) : Prop := c = 10 ∨ c = 13

instance (c : UInt8) : Decidable (LineEnd c) := inferInstanceAs (Decidable (_ ∨ _))

/-- A character as it is stored. -/
def asStored (c : UInt8) : UInt8 := if LineEnd c then 10 else c

/-- The answers of a console read that gets these from `kmalloc` and `copyoutstr`. -/
def typedAnswers (kmalloc : Bool) (getch : Nat → UInt8) (copyoutstr : Int) : ReadEnv :=
  { kmalloc := kmalloc, getch := getch, copyoutstr := fun _ => copyoutstr, vopRead := 0
    uioResid := 0, uioOffset := 0, copyout := 0 }

/-- `read_buffer` when the line has been read into a block. -/
def typedBuffer (getch : Nat → UInt8) (block : Nat → UInt8) (n : Nat) : List UInt8 :=
  (List.range n).map (fill block (readLine getch n 0))

/-- The console part of `read`, from `kmalloc` on. -/
def typedRun (getch : Nat → UInt8) (kmalloc : Option (Nat → UInt8)) (buf n : UInt32)
    (u : UserMem) : ReadRun :=
  match kmalloc with
  | none => { answers := typedAnswers false getch 0, mem := u }
  | some block =>
      match copyoutstr (typedBuffer getch block n.toNat) buf n u with
      | (.ok _, u') => { answers := typedAnswers true getch 0, mem := u' }
      | (.error e, u') => { answers := typedAnswers true getch e, mem := u' }

/-- The first `k` characters are what a read of `n` takes: it stops behind the first line end. -/
structure TakesChars (getch : Nat → UInt8) (n k : Nat) : Prop where
  within : k ≤ n
  inside : ∀ i, i + 1 < k → ¬ LineEnd (getch i)
  stop : k = n ∨ ∃ i, i + 1 = k ∧ LineEnd (getch i)

/-- The descriptor `fd` of the current process is open for standard input, and nothing keeps a call
on it from running. -/
structure OnStdin (s : Kernel) (fd : Int) : Prop where
  free : s.held = fun _ => none
  allocated : ∃ P, s.procs s.curproc = some P ∧ P.pFiletable.stdinOpen = true ∧
    ∀ i r, P.pFiletable.files i = some r → s.heap r ≠ none
  file : ∃ r f, lookupFd s s.curproc fd = some r ∧ s.heap r = some f ∧ f.canRead = true ∧
    f.stdFileStatus = 0

/-- `read` on `fd` stores what was typed at the start of the buffer, leaves all other memory alone
and returns the number of characters, whatever the block from `kmalloc` held before. -/
def GivesTyped (s : Kernel) (fd : Int) (getch : Nat → UInt8) (b : UserBuffer) : Prop :=
  ∀ block : Nat → UInt8, ∃ k s', TakesChars getch b.bytes.length k ∧
    Runs (sysRead fd (some b.addr.toNat) b.bytes.length
      (typedRun getch (some block) b.addr b.len b.mem).answers) s k s' ∧
    ∀ x, (typedRun getch (some block) b.addr b.len b.mem).mem x =
      if b.addr.toNat ≤ x.toNat ∧ x.toNat - b.addr.toNat < k then
        some (asStored (getch (x.toNat - b.addr.toNat)))
      else b.mem x

section Line

variable {getch : Nat → UInt8} {n k : Nat}

theorem TakesChars.unique {m : Nat} (hk : TakesChars getch n k) (hm : TakesChars getch n m) :
    k = m := by
  have hle : ∀ {k m : Nat}, TakesChars getch n k → TakesChars getch n m → k ≤ m := by
    intro k m hk hm
    by_contra hlt
    rcases hm.stop with hm' | ⟨i, hi, hend⟩
    · have := hk.within
      omega
    · exact hk.inside i (by omega) hend
  exact Nat.le_antisymm (hle hk hm) (hle hm hk)

/-- The input loop stores the characters that the read takes. -/
theorem readLine_eq (getch : Nat → UInt8) (n i : Nat) :
    ∃ k, TakesChars (fun j => getch (i + j)) n k ∧
      readLine getch n i = (List.range k).map fun j => asStored (getch (i + j)) := by
  induction n generalizing i with
  | zero => exact ⟨0, ⟨le_rfl, by omega, .inl rfl⟩, rfl⟩
  | succ n ih =>
      rw [readLine]
      by_cases hend : LineEnd (getch i)
      · refine ⟨1, ⟨by omega, by omega, .inr ⟨0, rfl, hend⟩⟩, ?_⟩
        have hif : (getch i = 10 ∨ getch i = 13) := hend
        simp [hif, asStored, hend]
      · obtain ⟨k, ⟨hwithin, hinside, hstop⟩, hline⟩ := ih (i + 1)
        have hshift : ∀ j, getch (i + 1 + j) = getch (i + (j + 1)) := fun j => by
          rw [Nat.add_assoc, Nat.add_comm 1 j]
        refine ⟨k + 1, ⟨by omega, fun j hj => ?_, ?_⟩, ?_⟩
        · cases j with
          | zero => exact hend
          | succ j =>
              have := hinside j (by omega)
              rwa [hshift] at this
        · rcases hstop with rfl | ⟨j, hj, hj'⟩
          · exact .inl rfl
          · exact .inr ⟨j + 1, by omega, by rwa [hshift] at hj'⟩
        · have hif : ¬ (getch i = 10 ∨ getch i = 13) := hend
          rw [if_neg hif, hline, List.range_succ_eq_map, List.map_cons, List.map_map]
          refine congrArg₂ _ ?_ (List.map_congr_left fun j _ => ?_)
          · rw [Nat.add_zero, asStored, if_neg hend]
          · exact congrArg asStored (hshift j)

/-- The input loop, from the first character on. -/
theorem readLine_zero (h : TakesChars getch n k) :
    readLine getch n 0 = (List.range k).map fun j => asStored (getch j) := by
  obtain ⟨m, hm, hline⟩ := readLine_eq getch n 0
  simp only [Nat.zero_add] at hm hline
  rw [hline, hm.unique h]

theorem TakesChars.pos (h : TakesChars getch n k) (hn : 0 < n) : 0 < k := by
  rcases h.stop with rfl | ⟨i, rfl, -⟩
  · exact hn
  · exact Nat.succ_pos i

/-- The line stands at the front of the buffer, the old contents of the block behind it. -/
theorem typedBuffer_getElem {block : Nat → UInt8} {i : Nat} (h : TakesChars getch n k)
    (hi : i < n) :
    (typedBuffer getch block n)[i]? = some (if i < k then asStored (getch i) else block i) := by
  rw [typedBuffer, readLine_zero h, List.getElem?_map, List.getElem?_range hi, Option.map_some,
    fill, List.getD_eq_getElem?_getD]
  split_ifs with hik
  · simp [hik]
  · simp [Nat.le_of_not_lt hik]

theorem asStored_eq_zero {c : UInt8} : asStored c = 0 ↔ c = 0 := by
  rw [asStored]
  by_cases h : LineEnd c
  · rw [if_pos h]
    rcases h with rfl | rfl <;> decide
  · rw [if_neg h]

end Line

section Stdin

variable {s : Kernel} {fd : Int} {getch : Nat → UInt8}

/-- A console read that gets a block ends with what the copy says. -/
theorem runs_sysRead_stdin (hopen : OnStdin s fd) {a n : Nat} {env : ReadEnv}
    (hk : env.kmalloc = true) (ret : Int) :
    (∃ s', Runs (sysRead fd (some a) n env) s ret s') ↔
      ret = (if env.copyoutstr (readLine env.getch n 0) = Errno.EFAULT.code then
          -1 * env.copyoutstr (readLine env.getch n 0)
        else env.copyoutstr (readLine env.getch n 0)) := by
  obtain ⟨r, f, hlook, hf, hread, hstd⟩ := hopen.file
  obtain ⟨P, hP, hstdin, halloc⟩ := hopen.allocated
  have hfound : sysRead fd (some a) n env s =
      (do lockAcquire (.ops s.curproc); readFound s.curproc r n env) s :=
    lookup_bind (k := readFound s.curproc r n env) hP (by rw [hopen.free]) halloc hlook rfl
  unfold Runs
  rw [hfound]
  show (∃ s', Runs (do lockAcquire (.ops s.curproc); readFound s.curproc r n env) s ret s') ↔ _
  simp only [readFound, readConsole, runs_bind, runs_lockAcquire, runs_lockFile, runs_readFile]
  by_cases htst : env.copyoutstr (readLine env.getch n 0) = Errno.EFAULT.code <;>
    simp [hopen.free, hf, hP, hread, hstd, hstdin, hk, htst]

variable {b : UserBuffer}

@[simp] theorem length_typedBuffer (getch block : Nat → UInt8) (n : Nat) :
    (typedBuffer getch block n).length = n := by
  simp [typedBuffer]

/-- What the console part does with a buffer that can be written. -/
theorem typedRun_eq (hpos : 0 < b.bytes.length) (block : Nat → UInt8) :
    typedRun getch (some block) b.addr b.len b.mem =
      { answers := typedAnswers true getch
          (if 0 ∈ typedBuffer getch block b.bytes.length then 0 else enametoolong)
        mem := (storeBytes (terminatedPart (typedBuffer getch block b.bytes.length))
          b.addr b.mem).2 } := by
  rw [typedRun]
  simp only [b.toNat_len]
  rw [copyoutstr_mem b hpos (length_typedBuffer getch block _)]
  by_cases hzero : 0 ∈ typedBuffer getch block b.bytes.length
  · simp only [hzero, if_true]
  · simp only [hzero, if_false]

/-- The call returns `0` when there is a zero byte in the block, and `ENAMETOOLONG` otherwise. -/
theorem runs_typedRun (hopen : OnStdin s fd) (hpos : 0 < b.bytes.length) (block : Nat → UInt8)
    (ret : Int) :
    (∃ s', Runs (sysRead fd (some b.addr.toNat) b.bytes.length
      (typedRun getch (some block) b.addr b.len b.mem).answers) s ret s') ↔
      ret = if 0 ∈ typedBuffer getch block b.bytes.length then 0 else enametoolong := by
  rw [typedRun_eq hpos, runs_sysRead_stdin hopen rfl]
  have hne : ∀ p : Prop, ∀ [Decidable p], (if p then 0 else enametoolong) ≠ Errno.EFAULT.code := by
    intro p _
    split_ifs <;> decide
  simp only [typedAnswers, hne, if_false]

/-- Without a zero byte in it the whole block is stored. -/
theorem mem_typedRun (hpos : 0 < b.bytes.length) {block : Nat → UInt8}
    (hzero : 0 ∉ typedBuffer getch block b.bytes.length) (x : UInt32) :
    (typedRun getch (some block) b.addr b.len b.mem).mem x =
      if b.addr.toNat ≤ x.toNat ∧ x.toNat - b.addr.toNat < b.bytes.length then
        (typedBuffer getch block b.bytes.length)[x.toNat - b.addr.toNat]?
      else b.mem x := by
  rw [typedRun_eq hpos]
  simp only
  rw [terminatedPart_of_notMem hzero, b.storeBytes_mem (by simp), length_typedBuffer]

/-- A read that gives what was typed has taken seven characters that are not zero. -/
theorem seven_of_givesTyped (hopen : OnStdin s fd) (hpos : 0 < b.bytes.length)
    (h : GivesTyped s fd getch b) :
    b.bytes.length = 7 ∧ (∀ i < 6, ¬ LineEnd (getch i)) ∧ ∀ i < 7, getch i ≠ 0 := by
  -- the block holds a byte that is neither zero nor the one of the user behind the seventh
  obtain ⟨c, hc, hne⟩ : ∃ c : UInt8, c ≠ 0 ∧ b.bytes[7]? ≠ some c := by
    by_cases h : b.bytes[7]? = some 1
    · exact ⟨2, by decide, by rw [h]; decide⟩
    · exact ⟨1, by decide, h⟩
  obtain ⟨k, s', htakes, hrun, hmem⟩ := h fun _ => c
  have hk := (runs_typedRun hopen hpos _ _).1 ⟨s', hrun⟩
  have hkpos := htakes.pos hpos
  split_ifs at hk with hzero
  · omega
  obtain rfl : k = 7 := by
    have : enametoolong = 7 := rfl
    omega
  have hwithin := htakes.within
  refine ⟨?_, fun i hi => htakes.inside i (by omega), fun i hi hi0 => hzero ?_⟩
  · by_contra hlen
    have hlt : 7 < b.bytes.length := by omega
    have haddr : (b.addr + .ofNat 7).toNat = b.addr.toNat + 7 := by
      have hbelow := b.below
      have htop : userspacetop.toNat = 2 ^ 31 := rfl
      rw [UInt32.toNat_add]
      exact Nat.mod_eq_of_lt (show b.addr.toNat + 7 < 2 ^ 32 by omega)
    have hold := hmem (b.addr + .ofNat 7)
    rw [mem_typedRun hpos hzero, haddr, Nat.add_sub_cancel_left, if_pos (by omega),
      if_neg (by omega), typedBuffer_getElem htakes hlt, if_neg (by omega), b.holds 7 hlt,
      ← List.getElem?_eq_getElem hlt] at hold
    exact hne hold.symm
  · have hget : (typedBuffer getch (fun _ => c) b.bytes.length)[i]? = some _ :=
      typedBuffer_getElem htakes (by omega)
    rw [if_pos (by omega), asStored_eq_zero.2 hi0] at hget
    exact List.mem_of_getElem? hget

/-- `read` on standard input gives what was typed exactly when it is for seven bytes, seven
characters are taken, and none of them is zero. -/
theorem givesTyped_iff (hopen : OnStdin s fd) (hpos : 0 < b.bytes.length) :
    GivesTyped s fd getch b ↔
      b.bytes.length = 7 ∧ (∀ i < 6, ¬ LineEnd (getch i)) ∧ ∀ i < 7, getch i ≠ 0 := by
  refine ⟨seven_of_givesTyped hopen hpos, fun ⟨hlen, hinside, hnonzero⟩ block => ?_⟩
  have htakes : TakesChars getch b.bytes.length 7 :=
    ⟨hlen.ge, fun i hi => hinside i (by omega), .inl hlen.symm⟩
  have hzero : 0 ∉ typedBuffer getch block b.bytes.length := by
    intro hmem
    obtain ⟨i, hi⟩ := List.mem_iff_getElem?.1 hmem
    have hlt : i < b.bytes.length := by
      have := (List.getElem?_eq_some_iff.1 hi).1
      rwa [length_typedBuffer] at this
    rw [typedBuffer_getElem htakes hlt, if_pos (by omega), Option.some_inj, asStored_eq_zero] at hi
    exact hnonzero i (by omega) hi
  obtain ⟨s', hrun⟩ := (runs_typedRun hopen hpos block 7).2 (by rw [if_neg hzero]; rfl)
  refine ⟨7, s', htakes, hrun, fun x => ?_⟩
  rw [mem_typedRun hpos hzero, hlen]
  by_cases hx : b.addr.toNat ≤ x.toNat ∧ x.toNat - b.addr.toNat < 7
  · rw [if_pos hx, if_pos hx, ← hlen, typedBuffer_getElem htakes (by omega), if_pos hx.2]
  · rw [if_neg hx, if_neg hx]

end Stdin

/-! ## Two buffers of a page -/

/-- A buffer of `n` bytes at the start of a page that holds zeros. -/
def zeroBuffer (n : Nat) (hn : n ≤ 4096) : UserBuffer where
  mem := zeroPage
  addr := 4096
  bytes := List.replicate n 0
  below := by
    have htop : userspacetop.toNat = 2 ^ 31 := rfl
    have haddr : (4096 : UInt32).toNat = 4096 := rfl
    rw [List.length_replicate]
    omega
  holds := fun i hi => by
    rw [List.length_replicate] at hi
    have hi' : (UInt32.ofNat i).toNat = i := UInt32.toNat_ofNat_of_lt' (show i < 2 ^ 32 by omega)
    have hx : ((4096 : UInt32) + .ofNat i).toNat = 4096 + i := by
      rw [UInt32.toNat_add, hi']
      exact Nat.mod_eq_of_lt (show 4096 + i < 2 ^ 32 by omega)
    rw [List.getElem_replicate, zeroPage, if_pos]
    rw [UInt32.le_iff_toNat_le, UInt32.lt_iff_toNat_lt, hx]
    exact ⟨Nat.le_add_right _ _, show 4096 + i < 8192 by omega⟩

theorem startOne_onStdin : ∃ s, execChecked sensibleMode boot startOne = some s ∧
    userThread s 1 true = true ∧ OnStdin { s with curproc := 1 } 0 := by
  have hrun : ((execChecked sensibleMode boot startOne).any fun s => userThread s 1 true &&
      (s.procs 1).any (fun P => P.pFiletable.stdinOpen && (List.finRange openMax).all fun i =>
        (P.pFiletable.files i).all fun r => (s.heap r).isSome) &&
      (lookupFd s 1 0).any fun r => (s.heap r).any fun f => f.canRead && f.stdFileStatus == 0) =
        true := by
    decide +kernel
  obtain ⟨s, hs, hc⟩ := (Option.any_eq_true _ _).1 hrun
  simp only [Bool.and_eq_true, Option.any_eq_true, beq_iff_eq, List.all_eq_true] at hc
  obtain ⟨⟨huser, P, hP, hstdin, halloc⟩, r, hlook, f, hf, hread, hstd⟩ := hc
  refine ⟨s, hs, huser, ?_, ⟨P, hP, hstdin, fun i r hi => ?_⟩, r, f, hlook, hf, hread, hstd⟩
  · exact held_of_reach (s := s) (reach_of_execChecked (fun _ _ _ hc => hc) startOne .refl hs)
  · have h := halloc i (List.mem_finRange i)
    rw [hi] at h
    exact Option.isSome_iff_ne_none.1 h

/-- A read of seven bytes when the letter `a` is typed again and again. -/
theorem givesTyped_seven : ∃ s, execChecked sensibleMode boot startOne = some s ∧
    GivesTyped { s with curproc := 1 } 0 (fun _ => 97) (zeroBuffer 7 (by decide)) := by
  obtain ⟨s, hs, -, hopen⟩ := startOne_onStdin
  exact ⟨s, hs, (givesTyped_iff hopen (by decide)).2
    ⟨by decide, fun _ _ => by decide, fun _ _ => by decide⟩⟩

/-- A read of one byte. -/
theorem not_givesTyped_of_onStdin : ¬ ∀ s p fd getch b, Reach step anyStep boot s →
    userThread s p true = true → OnStdin { s with curproc := p } fd → 0 < b.bytes.length →
    GivesTyped { s with curproc := p } fd getch b := by
  intro h
  obtain ⟨s, hs, huser, hopen⟩ := startOne_onStdin
  have hpos : 0 < (zeroBuffer 1 (by decide)).bytes.length := by decide
  have hreach : Reach step anyStep boot s :=
    (reach_of_execChecked (fun _ _ _ hc => hc) startOne .refl hs).mono fun _ _ _ => trivial
  have hgives := h s 1 0 (fun _ => 97) (zeroBuffer 1 (by decide)) hreach huser hopen hpos
  exact absurd (seven_of_givesTyped hopen hpos hgives).1 (by decide)

end Os161.Main
