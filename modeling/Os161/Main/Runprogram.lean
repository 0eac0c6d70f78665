import Os161.Syscall.CopyInOut

set_option autoImplicit false

/-!
# The arguments of a new program

`kern/syscall/runprogram.c`, with the data of its two loops. The strings go to the top of the
stack, one below the other, and then four bytes for each of them below the last one. The program is
entered with the address of the last string as `argv` and with the top of the stack as its stack
pointer. What `vfs_open`, `as_create` and `load_elf` answer is outside.
-/

namespace Os161.Main

open Os161.Syscall

/-- A string of the kernel, without its terminator. -/
abbrev CString : Type := { bs : List UInt8 // 0 ∉ bs }

/-- The string with its terminator. -/
def CString.bytes (str : CString) : List UInt8 := str.val ++ [0]

/-- `strlen(str) + 1`. -/
def CString.size (str : CString) : UInt32 := .ofNat (str.val.length + 1)

/-- Answers `runprogram` gets, up to `as_define_stack`. -/
structure LoadEnv where
  vfsOpen : Int
  /-- The process has an address space already. -/
  procGetas : Bool
  asCreate : Bool
  loadElf : Int
  entrypoint : UInt32
  /-- The user memory when the program has been loaded. -/
  mem : UserMem

/-- What `enter_new_process` gets, and the memory that the program starts with. -/
structure Entry where
  argc : Nat
  argv : UInt32
  stack : UInt32
  entry : UInt32
  mem : UserMem

/-- How `runprogram` ends. -/
inductive RunEnd where
  | fails (result : Int)
  /-- A failed `KASSERT`. -/
  | panic
  | enters (e : Entry)

/-- `copyout` from a source that is a user address itself. A byte of either that cannot be accessed
comes back through `copyfail`. -/
def copyoutFrom (src userdest len : UInt32) (u : UserMem) : Except Errno Unit × UserMem :=
  match loadBytes u src len.toNat with
  | none => (.error .EFAULT, u)
  | some bs => copyout bs userdest u

/-- The first loop, from the argument `args` on: the new `adjusted_stk_ptr` and
`adj_stk_ptr_history`. -/
def copyArgs : List CString → UInt32 → UserMem → Except Int (UInt32 × List UInt32 × UserMem)
  | [], p, u => .ok (p, [], u)
  | arg :: args, p, u =>
      match copyoutstr arg.bytes (p - arg.size) arg.size u with
      | (.error result, _) => .error result
      | (.ok got, u') =>
          let p := p - got
          let p := if got % 4 ≠ 0 then p - (4 - got % 4) else p
          (copyArgs args p u').map fun (q, history, u'') => (q, p :: history, u'')

/-- The second loop, from the index `i` on. -/
def storePointers : List UInt32 → UInt32 → UInt32 → UserMem → Except Int UserMem
  | [], _, _, u => .ok u
  | h :: history, i, p, u =>
      match copyoutFrom h (p - 4 * i) 4 u with
      | (.error result, _) => .error result.code
      | (.ok _, u') => storePointers history (i + 1) p u'

/-- `runprogram`; `args` begins with the name of the program. -/
def runprogram (env : LoadEnv) (args : List CString) : RunEnd :=
  if env.vfsOpen ≠ 0 then .fails env.vfsOpen
  else if env.procGetas then .panic
  else if env.asCreate = false then .fails Errno.ENOMEM.code
  else if env.loadElf ≠ 0 then .fails env.loadElf
  else
    -- `as_define_stack`
    let stackptr := userspacetop
    match copyArgs args.tail stackptr env.mem with
    | .error result => .fails result
    | .ok (p, history, u) =>
        match storePointers history 1 p u with
        | .error result => .fails result
        | .ok u' =>
            if 1 < args.length then
              .enters { argc := args.length - 1, argv := p, stack := stackptr
                        entry := env.entrypoint, mem := u' }
            else
              .enters { argc := 0, argv := 0, stack := stackptr, entry := env.entrypoint
                        mem := u' }

/-- A word of user memory; the processor is big-endian. -/
def word (u : UserMem) (a : UInt32) : Option UInt32 :=
  (loadBytes u a 4).map fun bs => bs.foldl (fun w b => w * 256 + b.toUInt32) 0

/-- The program finds the strings `strs` as its arguments. -/
structure FindsArguments (strs : List CString) (e : Entry) (ptrs : List UInt32) : Prop where
  argc : e.argc = strs.length
  length : ptrs.length = strs.length
  aligned : e.argv.toNat % 4 = 0
  argv : ∀ k p, ptrs[k]? = some p → word e.mem (e.argv + .ofNat (4 * k)) = some p
  null : word e.mem (e.argv + .ofNat (4 * e.argc)) = some 0
  strings : ∀ (k : Nat) (str : CString) p, strs[k]? = some str → ptrs[k]? = some p →
    loadBytes e.mem p str.bytes.length = some str.bytes
  below : ∀ p ∈ ptrs, e.argv.toNat + 4 * (e.argc + 1) ≤ p.toNat
  disjoint : ∀ (j k : Nat) (str str' : CString) p q, j ≠ k → strs[j]? = some str →
    ptrs[j]? = some p → strs[k]? = some str' → ptrs[k]? = some q →
    p.toNat + str.bytes.length ≤ q.toNat ∨ q.toNat + str'.bytes.length ≤ p.toNat
  stackArgv : e.stack.toNat ≤ e.argv.toNat
  stackStrings : ∀ p ∈ ptrs, e.stack.toNat ≤ p.toNat

/-! ## Where the strings go -/

section Arguments

variable {u u' : UserMem} {p q : UInt32}

theorem copycheck_ok {a len stoplen : UInt32} (h : copycheck a len = .ok stoplen) :
    a.toNat + stoplen.toNat ≤ userspacetop.toNat := by
  have ha := a.toNat_lt
  have hl := len.toNat_lt
  have htop : userspacetop.toNat = 2 ^ 31 := rfl
  have hone : (1 : UInt32).toNat = 1 := rfl
  simp only [copycheck] at h
  split_ifs at h <;> obtain rfl := Except.ok.inj h <;>
    simp only [UInt32.lt_iff_toNat_lt, UInt32.le_iff_toNat_le, UInt32.toNat_sub,
      UInt32.toNat_add] at * <;>
    omega

/-- A string that has been copied out has been so as a whole, to a region of user memory. -/
theorem copyoutstr_ok {str : CString} {dest got : UInt32}
    (h : copyoutstr str.bytes dest str.size u = (.ok got, u')) :
    got = str.size ∧ 0 < got.toNat ∧ dest.toNat + got.toNat ≤ userspacetop.toNat := by
  rw [copyoutstr] at h
  cases hc : copycheck dest str.size with
  | error e =>
      rw [hc] at h
      cases congrArg Prod.fst h
  | ok stoplen =>
      simp only [hc] at h
      generalize hm : min str.size.toNat stoplen.toNat = m at h
      rw [copyoutstrLoop_eq] at h
      by_cases hstore : (storeBytes (terminatedPart (str.bytes.take m)) dest u).1 = false
      · simp [hstore] at h
      by_cases hzero : 0 ∈ str.bytes.take m
      · -- the terminator has been reached, so nothing has been cut off
        have hle : str.val.length < m := by
          by_contra hlt
          rw [CString.bytes, List.take_append_of_le_length (Nat.le_of_not_lt hlt)] at hzero
          exact str.property (List.mem_of_mem_take hzero)
        have hsize : str.size.toNat ≤ str.val.length + 1 := by
          rw [CString.size, UInt32.toNat_ofNat']
          exact Nat.mod_le _ _
        have hwhile : (str.bytes.takeWhile (· ≠ 0)).length = str.val.length := by
          rw [CString.bytes, List.takeWhile_append_of_pos fun b hb => ?_]
          · simp
          · rw [decide_eq_true_eq]
            rintro rfl
            exact str.property hb
        have hwhole : str.bytes.take m = str.bytes := by
          rw [List.take_of_length_le]
          rw [CString.bytes, List.length_append, List.length_singleton]
          exact hle
        rw [if_neg hstore, if_pos hzero, hwhole, hwhile] at h
        obtain ⟨hgot, -⟩ := Prod.mk.inj h
        obtain rfl := Except.ok.inj hgot
        have htop := copycheck_ok hc
        change str.size = str.size ∧ 0 < str.size.toNat ∧ dest.toNat + str.size.toNat ≤ _
        exact ⟨rfl, by omega, by omega⟩
      · simp [hstore, hzero] at h

/-- The next string goes below the one before. -/
theorem argument_below {got : UInt32} (haligned : p.toNat % 4 = 0) (hpos : 0 < got.toNat)
    (htop : (p - got).toNat + got.toNat ≤ userspacetop.toNat) :
    (if got % 4 ≠ 0 then p - got - (4 - got % 4) else p - got).toNat < p.toNat ∧
      (if got % 4 ≠ 0 then p - got - (4 - got % 4) else p - got).toNat % 4 = 0 := by
  have hgot := got.toNat_lt
  have husertop : userspacetop.toNat = 2 ^ 31 := rfl
  have hfour : (4 : UInt32).toNat = 4 := rfl
  -- the region of the string does not wrap around
  have hsub : (p - got).toNat = p.toNat - got.toNat ∧ got.toNat ≤ p.toNat := by
    have hp := p.toNat_lt
    rw [UInt32.toNat_sub] at htop ⊢
    omega
  obtain ⟨hsub, hle⟩ := hsub
  have hmod : (got % 4).toNat = got.toNat % 4 := UInt32.toNat_mod ..
  split_ifs with hrest
  · have hrest : got.toNat % 4 ≠ 0 := fun h => hrest (UInt32.toNat_inj.1 (hmod.trans h))
    have hp := p.toNat_lt
    rw [UInt32.toNat_sub, UInt32.toNat_sub, hmod, hsub, hfour]
    omega
  · rw [not_not, ← UInt32.toNat_inj, hmod] at hrest
    have hrest : got.toNat % 4 = 0 := hrest
    rw [hsub]
    omega

/-- Run lemma for the first loop. -/
theorem copyArgs_below {args : List CString} {history : List UInt32} (haligned : p.toNat % 4 = 0)
    (h : copyArgs args p u = .ok (q, history, u')) :
    q.toNat % 4 = 0 ∧ q.toNat + args.length ≤ p.toNat := by
  induction args generalizing p q u u' history with
  | nil =>
      obtain ⟨rfl, -⟩ := Prod.mk.inj (Except.ok.inj h)
      exact ⟨haligned, Nat.le_refl _⟩
  | cons arg args ih =>
      rw [copyArgs] at h
      rcases hcopy : copyoutstr arg.bytes (p - arg.size) arg.size u with ⟨e | got, v⟩
      · rw [hcopy] at h
        cases h
      · obtain ⟨rfl, hpos, htop⟩ := copyoutstr_ok hcopy
        obtain ⟨hlt, hmod⟩ := argument_below haligned hpos htop
        simp only [hcopy] at h
        generalize (if arg.size % 4 ≠ 0 then p - arg.size - (4 - arg.size % 4)
          else p - arg.size) = p' at h hlt hmod
        cases hrest : copyArgs args p' v with
        | error e =>
            rw [hrest] at h
            cases h
        | ok r =>
            rw [hrest] at h
            obtain ⟨rfl, -⟩ := Prod.mk.inj (Except.ok.inj h)
            obtain ⟨haligned', hbelow⟩ := ih hmod hrest
            refine ⟨haligned', ?_⟩
            rw [List.length_cons]
            omega

/-- A program is entered with the top of the stack as its stack pointer, and with an `argv` that is
`NULL` or, with arguments, below it. -/
theorem runprogram_enters {env : LoadEnv} {args : List CString} {e : Entry}
    (h : runprogram env args = .enters e) :
    e.stack = userspacetop ∧ e.argv.toNat < e.stack.toNat := by
  rw [runprogram] at h
  split at h
  · cases h
  split at h
  · cases h
  split at h
  · cases h
  split at h
  · cases h
  dsimp only at h
  cases hcopy : copyArgs args.tail userspacetop env.mem with
  | error result =>
      rw [hcopy] at h
      cases h
  | ok r =>
      obtain ⟨p, history, u⟩ := r
      rw [hcopy] at h
      dsimp only at h
      obtain ⟨-, hbelow⟩ := copyArgs_below (by decide) hcopy
      cases hstore : storePointers history 1 p u with
      | error result =>
          rw [hstore] at h
          cases h
      | ok u' =>
          rw [hstore] at h
          dsimp only at h
          split_ifs at h with hlen
          · obtain rfl := RunEnd.enters.inj h
            rw [List.length_tail] at hbelow
            refine ⟨rfl, ?_⟩
            change p.toNat < userspacetop.toNat
            omega
          · obtain rfl := RunEnd.enters.inj h
            exact ⟨rfl, show (0 : UInt32).toNat < userspacetop.toNat by decide⟩

end Arguments

/-- No program finds its arguments: its stack pointer is above them. -/
theorem not_findsArguments (env : LoadEnv) (args : List CString) :
    ¬ ∃ e ptrs, runprogram env args = .enters e ∧ FindsArguments args.tail e ptrs := by
  rintro ⟨e, ptrs, hrun, hfinds⟩
  exact absurd hfinds.stackArgv (Nat.not_le.2 (runprogram_enters hrun).2)

/-! ## A program with one argument -/

/-- A stack page that holds zeros, and a program that can be loaded. -/
def stackPage : LoadEnv where
  vfsOpen := 0
  procGetas := false
  asCreate := true
  loadElf := 0
  entrypoint := 0x400000
  mem := fun a => if 0x7ffff000 ≤ a ∧ a < 0x80000000 then some 0 else none

/-- The program `/p` with the argument `hi`. -/
def oneArgument : List CString := [⟨[47, 112], by decide⟩, ⟨[104, 105], by decide⟩]

/-- `argv` is the address of a region that ends with the string itself, so the first word there is
made of its bytes, and the bytes copied below are those of the string as well. -/
theorem not_findsArguments_oneArgument : ∃ e, runprogram stackPage oneArgument = .enters e ∧
    e.argc = 1 ∧ e.argv = 0x7ffffffc ∧ e.stack = 0x80000000 ∧
    loadBytes e.mem 0x7ffffff8 8 = some [0, 104, 105, 0, 0, 104, 105, 0] ∧
    ¬ ∃ ptrs, FindsArguments oneArgument.tail e ptrs := by
  have hrun : (match runprogram stackPage oneArgument with
    | .enters e => e.argc == 1 && e.argv == 0x7ffffffc && e.stack == 0x80000000 &&
        loadBytes e.mem 0x7ffffff8 8 == some [0, 104, 105, 0, 0, 104, 105, 0]
    | _ => false) = true := by
    decide +kernel
  cases hend : runprogram stackPage oneArgument with
  | fails result =>
      rw [hend] at hrun
      cases hrun
  | panic =>
      rw [hend] at hrun
      cases hrun
  | enters e =>
      rw [hend] at hrun
      simp only [Bool.and_eq_true, beq_iff_eq] at hrun
      obtain ⟨⟨⟨hargc, hargv⟩, hstack⟩, hmem⟩ := hrun
      refine ⟨e, rfl, hargc, hargv, hstack, hmem, fun ⟨ptrs, hfinds⟩ => ?_⟩
      have hle := hfinds.stackArgv
      rw [hargv, hstack] at hle
      exact absurd hle (by decide)

end Os161.Main
