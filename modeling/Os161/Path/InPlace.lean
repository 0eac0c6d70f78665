import Mathlib.Data.List.Basic
import Os161.Path.Lookup

set_option autoImplicit false

/-!
# Paths in memory

`getdevice` of `kern/vfs/vfslookup.c` on the memory that holds the path. It looks for the first
colon or slash, cuts the string at the colon by writing a zero byte over it, and gives back a pointer
into the same memory. `Os161.Path.getdevice` splits a list of characters; here the two are
connected, and `getdevice_grammar` says which strings start where.

The memory from some address on is a list of characters, and a pointer is a position in it. An
access behind the end of the list stops the model; nothing is known about what is there.
-/

namespace Os161.Path.InPlace

open Os161.Lib.Calls

/-- The character that ends a string. -/
abbrev nul : Char := '\x00'

/-- What stops a call on a path in memory. -/
inductive Stop where
  /-- A panic of the functions that are called. -/
  | panic (p : Panic)
  /-- An assertion of `getdevice` fails. -/
  | assertion
  /-- An access behind the memory of the model. -/
  | outside
  deriving DecidableEq

/-- Calls on the file systems and on the memory that holds the path. -/
abbrev PathCall (α : Type) : Type := Call (Vfs × List Char) Stop Errno α

/-- What is left of a call that does not touch the memory of the path. -/
def onMemory {α : Type} (buf : List Char) :
    Except Panic (Except Errno α × Vfs) → Except Stop (Except Errno α × Vfs × List Char)
  | .ok (r, t) => .ok (r, t, buf)
  | .error p => .error (.panic p)

/-- A call that does not touch the memory of the path. -/
def kernel {α : Type} (m : VfsCall α) : PathCall α :=
  ExceptT.mk fun (s, buf) => onMemory buf (m.result s)

/-- A loop that only reads the memory of the path. -/
def reading {α : Type} (f : List Char → Except Stop α) : PathCall α :=
  ExceptT.mk fun (s, buf) =>
    match f buf with
    | .ok a => .ok (.ok a, s, buf)
    | .error p => .error p

/-- `path[i] = c`. -/
def store (i : Nat) (c : Char) : PathCall Unit :=
  ExceptT.mk fun (s, buf) =>
    if i < buf.length then .ok (.ok (), s, buf.set i c) else .error .outside

/-- `path[i]`. -/
def charAt (i : Nat) (buf : List Char) : Except Stop Char :=
  match buf[i]? with
  | some c => .ok c
  | none => .error .outside

/-! ## The loops -/

/-- The variables `slash` and `colon`. -/
structure Marks where
  slash : Int
  colon : Int
  deriving DecidableEq

/-- The loop over `path[i]`, on the memory from `path[i]` on. -/
def findMarkFrom : List Char → Int → Except Stop Marks
  | [], _ => .error .outside
  | c :: rest, i =>
      if c = nul then .ok { slash := -1, colon := -1 }
      else if c = ':' then .ok { slash := -1, colon := i }
      else if c = '/' then .ok { slash := i, colon := -1 }
      else findMarkFrom rest (i + 1)

/-- Locate the first colon or slash. -/
def findMark (path : Nat) (buf : List Char) : Except Stop Marks := findMarkFrom (buf.drop path) 0

/-- `while (p[1] == '/') p++`, on the memory from `p[1]` on. -/
def skipFrom : List Char → Nat → Except Stop Nat
  | [], _ => .error .outside
  | c :: rest, p => if c = '/' then skipFrom rest (p + 1) else .ok p

/-- Skip the slashes behind `p`. -/
def skip (p : Nat) (buf : List Char) : Except Stop Nat := skipFrom (buf.drop (p + 1)) p

/-- The string in the memory from a pointer on, as `strlen` and `strcmp` see it. -/
def cstringFrom : List Char → Except Stop Str
  | [] => .error .outside
  | c :: rest => if c = nul then .ok [] else (c :: ·) <$> cstringFrom rest

/-- The string at `path`. -/
def cstring (path : Nat) (buf : List Char) : Except Stop Str := cstringFrom (buf.drop path)

/-! ## `getdevice` -/

/-- Where a lookup can start. -/
inductive Start where
  | curdir
  | device (devname : Str)
  | bootfs
  | currentFs
  deriving DecidableEq

variable (W : World)

/-- The vnode of the start, with a reference for the caller. -/
def Start.vnode : Start → VfsCall VnodeRef
  | .curdir => vfsGetcurdir
  | .device devname => vfsGetroot W devname
  | .bootfs => do
      let s ← get
      match s.bootfs with
      | none => throw .ENOENT
      | some boot => do
          vopIncref boot
          pure boot
  | .currentFs => do
      let vn ← vfsGetcurdir
      match ← vnFs W vn with
      | none => halt .noFs
      | some fs => do
          let r ← catching (fsopGetroot W fs)
          vopDecref vn
          returning r

/-- `getdevice`, once `first = path[0]` is not zero and the first mark has been looked for: the
pointer to the path below the start, and the vnode to start from. -/
def getdeviceAt (path : Nat) (first : Char) (m : Marks) : PathCall (Nat × VnodeRef) :=
  if m.colon < 0 ∧ m.slash ≠ 0 then do
    let startvn ← kernel vfsGetcurdir
    pure (path, startvn)
  else if 0 < m.colon then do
    let colon := path + m.colon.toNat
    store colon nul
    let colon ← reading (skip colon)
    let devname ← reading (cstring path)
    let startvn ← kernel (vfsGetroot W devname)
    pure (colon + 1, startvn)
  else if ¬ (m.colon = 0 ∨ m.slash = 0) then halt .assertion
  else if first = '/' then do
    let startvn ← kernel (Start.vnode W .bootfs)
    let path ← reading (skip path)
    pure (path + 1, startvn)
  else if first ≠ ':' then halt .assertion
  else do
    let startvn ← kernel (Start.vnode W .currentFs)
    let path ← reading (skip path)
    pure (path + 1, startvn)

/-- `getdevice`. -/
def getdevice (path : Nat) : PathCall (Nat × VnodeRef) := do
  kernel biglockHeld
  let first ← reading (charAt path)
  if first = nul then throw .EINVAL
  else do
    let m ← reading (findMark path)
    getdeviceAt W path first m

/-- `vfs_lookup`. -/
def vfsLookup (path : Nat) : PathCall VnodeRef := do
  kernel biglockAcquire
  match ← catching (getdevice W path) with
  | .error e => do
      kernel biglockRelease
      throw e
  | .ok (path, startvn) => do
      let name ← reading (cstring path)
      if name.length = 0 then do
        kernel biglockRelease
        pure startvn
      else do
        let r ← catching (kernel (vopLookup W startvn name))
        kernel (vopDecref startvn)
        kernel biglockRelease
        returning r

/-! ## Strings in memory -/

/-- The string `str` is in the memory at `path`. -/
structure StringAt (buf : List Char) (path : Nat) (str : Str) : Prop where
  noNul : nul ∉ str
  held : ∃ rest, buf.drop path = str ++ nul :: rest

section Strings

variable {buf : List Char} {path : Nat} {str pre sub : Str}

theorem cstringFrom_append (h : nul ∉ str) (rest : List Char) :
    cstringFrom (str ++ nul :: rest) = .ok str := by
  induction str with
  | nil => rfl
  | cons c str ih =>
      rw [List.mem_cons, not_or] at h
      rw [List.cons_append, cstringFrom, if_neg (Ne.symm h.1), ih h.2]
      rfl

theorem StringAt.cstring_eq (h : StringAt buf path str) : cstring path buf = .ok str := by
  obtain ⟨rest, hrest⟩ := h.held
  rw [cstring, hrest, cstringFrom_append h.noNul]

/-- A pointer holds one string only. -/
theorem StringAt.eq {str' : Str} (h : StringAt buf path str) (h' : StringAt buf path str') :
    str = str' :=
  Except.ok.inj (h.cstring_eq.symm.trans h'.cstring_eq)

/-- A pointer into a string holds what is left of it. -/
theorem StringAt.suffix (h : StringAt buf path (pre ++ sub)) :
    StringAt buf (path + pre.length) sub := by
  obtain ⟨rest, hrest⟩ := h.held
  refine ⟨fun hmem => h.noNul (List.mem_append_right pre hmem), rest, ?_⟩
  rw [← List.drop_drop, hrest, List.append_assoc, List.drop_left]

theorem StringAt.charAt_cons {c : Char} (h : StringAt buf path (c :: sub)) :
    charAt path buf = .ok c := by
  obtain ⟨rest, hrest⟩ := h.held
  have hget : buf[path]? = some c := by
    rw [← List.head?_drop, hrest]
    rfl
  rw [charAt, hget]

theorem StringAt.charAt_nil (h : StringAt buf path []) : charAt path buf = .ok nul := by
  obtain ⟨rest, hrest⟩ := h.held
  have hget : buf[path]? = some nul := by
    rw [← List.head?_drop, hrest]
    rfl
  rw [charAt, hget]

theorem StringAt.lt_length (h : StringAt buf path (pre ++ sub)) :
    path + pre.length < buf.length := by
  obtain ⟨rest, hrest⟩ := h.suffix.held
  by_contra hle
  rw [List.drop_eq_nil_of_le (Nat.le_of_not_lt hle)] at hrest
  cases sub <;> cases hrest

/-- The memory with a zero byte written over the character behind `pre`. -/
theorem StringAt.drop_cut {c : Char} (h : StringAt buf path (pre ++ c :: sub)) :
    ∃ rest, (buf.set (path + pre.length) nul).drop path = pre ++ nul :: (sub ++ nul :: rest) := by
  obtain ⟨rest, hrest⟩ := h.held
  refine ⟨rest, ?_⟩
  rw [List.drop_set, if_neg (by omega), hrest, Nat.add_sub_cancel_left, List.append_assoc,
    List.set_append_right _ _ le_rfl, Nat.sub_self]
  rfl

/-- The part before the cut is a string of its own. -/
theorem StringAt.cut_left {c : Char} (h : StringAt buf path (pre ++ c :: sub)) :
    StringAt (buf.set (path + pre.length) nul) path pre := by
  obtain ⟨rest, hrest⟩ := h.drop_cut
  exact ⟨fun hmem => h.noNul (List.mem_append_left _ hmem), _, hrest⟩

/-- The part behind the cut stays where it is. -/
theorem StringAt.cut_right {c : Char} (h : StringAt buf path (pre ++ c :: sub)) :
    StringAt (buf.set (path + pre.length) nul) (path + pre.length + 1) sub := by
  obtain ⟨rest, hrest⟩ := h.drop_cut
  refine ⟨fun hmem => h.noNul (List.mem_append_right _ (List.mem_cons_of_mem c hmem)), rest, ?_⟩
  have hsplit : pre ++ nul :: (sub ++ nul :: rest) = (pre ++ [nul]) ++ (sub ++ nul :: rest) := by
    rw [List.append_assoc, List.singleton_append]
  have hlen : pre.length + 1 = (pre ++ [nul]).length := by simp
  rw [Nat.add_assoc, ← List.drop_drop, hrest, hsplit, hlen, List.drop_left]

end Strings

/-! ## The loops on a string -/

section Loops

variable {buf : List Char} {path : Nat} {str pre sub rest : Str}

/-- Characters other than the colon, the slash and the zero byte are passed over. -/
theorem findMarkFrom_append (hpre : ∀ c ∈ pre, c ≠ nul ∧ c ≠ ':' ∧ c ≠ '/') (l : List Char)
    (i : Int) : findMarkFrom (pre ++ l) i = findMarkFrom l (i + pre.length) := by
  induction pre generalizing i with
  | nil => rw [List.nil_append, List.length_nil, Int.natCast_zero, Int.add_zero]
  | cons c pre ih =>
      obtain ⟨hnul, hcolon, hslash⟩ := hpre c List.mem_cons_self
      have hstep := ih (fun d hd => hpre d (List.mem_cons_of_mem c hd)) (i + 1)
      rw [List.cons_append, findMarkFrom, if_neg hnul, if_neg hcolon, if_neg hslash, hstep]
      congr 1
      rw [List.length_cons]
      push_cast
      omega

/-- The number of characters by which `skip` moves on. -/
def slashes (str : Str) : Nat := str.length - (skipSlashes str).length

theorem skipSlashes_length_le (str : Str) : (skipSlashes str).length ≤ str.length :=
  (List.dropWhile_suffix _).length_le

theorem skipSlashes_cons (str : Str) : skipSlashes ('/' :: str) = skipSlashes str := rfl

theorem skipSlashes_of_ne {c : Char} (hc : c ≠ '/') : skipSlashes (c :: str) = c :: str := by
  rw [skipSlashes, List.dropWhile_cons_of_neg (by simpa using hc)]

theorem skipFrom_append (rest : List Char) (p : Nat) :
    skipFrom (str ++ nul :: rest) p = .ok (p + slashes str) := by
  induction str generalizing p with
  | nil => rfl
  | cons c str ih =>
      by_cases hc : c = '/'
      · subst hc
        have hle := skipSlashes_length_le str
        rw [List.cons_append, skipFrom, if_pos rfl, ih, slashes, slashes, skipSlashes_cons,
          List.length_cons]
        congr 1
        omega
      · rw [List.cons_append, skipFrom, if_neg hc, slashes, skipSlashes_of_ne hc, Nat.sub_self,
          Nat.add_zero]

theorem StringAt.skip_eq (h : StringAt buf (path + 1) str) :
    skip path buf = .ok (path + slashes str) := by
  obtain ⟨rest, hrest⟩ := h.held
  rw [skip, hrest, skipFrom_append]

/-- Behind the slashes is the rest of the string. -/
theorem StringAt.behind_slashes (h : StringAt buf path str) :
    StringAt buf (path + slashes str) (skipSlashes str) := by
  have hsplit : str.takeWhile (· == '/') ++ skipSlashes str = str :=
    List.takeWhile_append_dropWhile
  have hlen : (str.takeWhile (· == '/')).length = slashes str := by
    have hsum := congrArg List.length hsplit
    rw [List.length_append] at hsum
    rw [slashes]
    omega
  rw [← hlen]
  exact StringAt.suffix (hsplit.symm ▸ h)

end Loops

/-! ## The forms of a path -/

/-- The grammar: where a path starts, and the path below the start. -/
inductive Form (str : Str) : Start → Str → Prop where
  /-- No colon before the first slash, and no slash at the front. -/
  | curdir (hcolon : ∀ pre post, str = pre ++ ':' :: post → '/' ∈ pre)
      (hslash : ∀ post, str ≠ '/' :: post) : Form str .curdir str
  /-- `device:rest`. -/
  | device (devname rest : Str) (hne : devname ≠ []) (hcolon : ':' ∉ devname)
      (hslash : '/' ∉ devname) (hstr : str = devname ++ ':' :: rest) :
      Form str (.device devname) (skipSlashes rest)
  /-- `/rest`. -/
  | bootfs (rest : Str) (hstr : str = '/' :: rest) : Form str .bootfs (skipSlashes rest)
  /-- `:rest`. -/
  | currentFs (rest : Str) (hstr : str = ':' :: rest) : Form str .currentFs (skipSlashes rest)

/-- The memory after `getdevice`: a device name is cut off by a zero byte. -/
def Start.cut (buf : List Char) (path : Nat) : Start → List Char
  | .device devname => buf.set (path + devname.length) nul
  | .curdir | .bootfs | .currentFs => buf

/-- With the big lock held, `getdevice` gets the vnode of `start`, and returns it with the pointer
`q` to the string `sub`. -/
structure StartsFrom (buf : List Char) (path : Nat) (start : Start) (q : Nat) (sub : Str) :
    Prop where
  subpath : StringAt (start.cut buf path) q sub
  result : ∀ (W : World) (s : Vfs), 0 < s.depth → (getdevice W path).result (s, buf) =
    onMemory (start.cut buf path) (((fun v => (q, v)) <$> start.vnode W).result s)

section Forms

variable {W : World} {s : Vfs} {buf : List Char} {path q : Nat} {str sub sub' : Str}
  {start start' : Start}

theorem biglockHeld_zero (hs : s.depth = 0) : biglockHeld.result s = .error .biglock := by
  rw [biglockHeld, result_bind]
  change (ite (s.depth = 0) _ _ : VfsCall Unit).result s = _
  rw [if_pos hs]
  rfl

theorem biglockHeld_pos (hs : 0 < s.depth) : biglockHeld.result s = .ok (.ok (), s) := by
  rw [biglockHeld, result_bind]
  change (ite (s.depth = 0) _ _ : VfsCall Unit).result s = _
  rw [if_neg (by omega)]
  rfl

theorem result_held {α : Type} (hs : 0 < s.depth) (f : Unit → PathCall α) :
    (kernel biglockHeld >>= f).result (s, buf) = (f ()).result (s, buf) := by
  have hk : (kernel biglockHeld).result (s, buf) = .ok (.ok (), s, buf) :=
    congrArg (onMemory buf) (biglockHeld_pos hs)
  rw [result_bind, hk]

theorem result_reading {α β : Type} {g : List Char → Except Stop α} {a : α} (hg : g buf = .ok a)
    (f : α → PathCall β) : (reading g >>= f).result (s, buf) = (f a).result (s, buf) := by
  have hread : (reading g).result (s, buf) = .ok (.ok a, s, buf) := by
    change (match g buf with | .ok a => _ | .error p => _) = _
    rw [hg]
  rw [result_bind, hread]

theorem result_store {α : Type} {i : Nat} {c : Char} (hi : i < buf.length)
    (f : Unit → PathCall α) :
    (store i c >>= f).result (s, buf) = (f ()).result (s, buf.set i c) := by
  have hstore : (store i c).result (s, buf) = .ok (.ok (), s, buf.set i c) := if_pos hi
  rw [result_bind, hstore]

theorem result_map {σ π ε α β : Type} (f : α → β) (m : Call σ π ε α) (s : σ) :
    (f <$> m).result s =
      match m.result s with
      | .ok (r, t) => .ok (r.map f, t)
      | .error p => .error p := by
  rw [map_eq_pure_bind, result_bind]
  cases m.result s with
  | error p => rfl
  | ok x =>
      obtain ⟨r, t⟩ := x
      cases r <;> rfl

/-- A call on the file systems, followed by what does not touch the memory either. -/
theorem result_kernel_bind {α β : Type} {m : VfsCall α} {f : α → PathCall β} {g : α → VfsCall β}
    (hf : ∀ a t, (f a).result (t, buf) = onMemory buf ((g a).result t)) :
    (kernel m >>= f).result (s, buf) = onMemory buf ((m >>= g).result s) := by
  have hk : (kernel m).result (s, buf) = onMemory buf (m.result s) := rfl
  rw [result_bind, result_bind, hk]
  cases m.result s with
  | error p => rfl
  | ok x =>
      obtain ⟨r, t⟩ := x
      cases r with
      | error e => rfl
      | ok a => exact hf a t

theorem result_kernel {f : VnodeRef → PathCall (Nat × VnodeRef)} (m : VfsCall VnodeRef)
    (hf : ∀ v t, (f v).result (t, buf) = .ok (.ok (q, v), t, buf)) :
    (kernel m >>= f).result (s, buf) = onMemory buf (((fun v => (q, v)) <$> m).result s) := by
  rw [map_eq_pure_bind]
  exact result_kernel_bind hf

/-! ### One lemma for each form -/

/-- The characters in front of the first mark. -/
def Plain (pre : Str) : Prop := ∀ c ∈ pre, c ≠ ':' ∧ c ≠ '/'

theorem StringAt.findMark_eq {pre : Str} (h : StringAt buf path (pre ++ sub)) (hpre : Plain pre)
    {m : Marks} (hm : ∀ rest, findMarkFrom (sub ++ nul :: rest) pre.length = .ok m) :
    findMark path buf = .ok m := by
  obtain ⟨rest, hrest⟩ := h.held
  have hplain : ∀ c ∈ pre, c ≠ nul ∧ c ≠ ':' ∧ c ≠ '/' := fun c hc =>
    ⟨fun hnul => h.noNul (hnul ▸ List.mem_append_left sub hc), hpre c hc⟩
  rw [findMark, hrest, List.append_assoc, findMarkFrom_append hplain, Int.zero_add, hm]

/-- The beginning of `getdevice` on a string that is not empty. -/
theorem getdevice_result {c : Char} {m : Marks} (h : StringAt buf path (c :: sub))
    (hm : findMark path buf = .ok m) (hs : 0 < s.depth) :
    (getdevice W path).result (s, buf) = (getdeviceAt W path c m).result (s, buf) := by
  have hc : c ≠ nul := fun hnul => h.noNul (hnul ▸ List.mem_cons_self)
  rw [getdevice, result_held hs, result_reading h.charAt_cons, if_neg hc, result_reading hm]

theorem startsFrom_curdir {pre : Str} {slash : Int} (h : StringAt buf path (pre ++ sub))
    (hne : pre ≠ []) (hm : findMark path buf = .ok ⟨slash, -1⟩) (hslash : slash ≠ 0) :
    StartsFrom buf path .curdir path (pre ++ sub) := by
  refine ⟨h, fun W s hs => ?_⟩
  obtain ⟨c, pre, rfl⟩ := List.exists_cons_of_ne_nil hne
  rw [List.cons_append] at h
  rw [getdevice_result h hm hs, getdeviceAt, if_pos ⟨Int.negSucc_lt_zero 0, hslash⟩]
  exact result_kernel _ fun v t => rfl

theorem startsFrom_device {devname rest : Str} (h : StringAt buf path (devname ++ ':' :: rest))
    (hne : devname ≠ []) (hplain : Plain devname) :
    StartsFrom buf path (.device devname) (path + devname.length + 1 + slashes rest)
      (skipSlashes rest) := by
  refine ⟨h.cut_right.behind_slashes, fun W s hs => ?_⟩
  have hm : findMark path buf = .ok ⟨-1, devname.length⟩ := h.findMark_eq hplain fun _ => rfl
  obtain ⟨c, dev, hcons⟩ := List.exists_cons_of_ne_nil hne
  have hhead : StringAt buf path (c :: (dev ++ ':' :: rest)) := by
    rw [← List.cons_append, ← hcons]
    exact h
  have hpos : (0 : Int) < devname.length := by
    rw [hcons, List.length_cons]
    omega
  rw [getdevice_result hhead hm hs, getdeviceAt, if_neg (by dsimp only; omega), if_pos hpos]
  dsimp only [Int.toNat_natCast]
  rw [result_store h.lt_length, result_reading h.cut_right.skip_eq,
    result_reading h.cut_left.cstring_eq]
  refine result_kernel _ fun v t => ?_
  rw [Nat.add_right_comm]
  rfl

/-- A slash at the front. -/
theorem startsFrom_bootfs {rest : Str} (h : StringAt buf path ('/' :: rest)) :
    StartsFrom buf path .bootfs (path + 1 + slashes rest) (skipSlashes rest) := by
  have hnil : StringAt buf path ([] ++ '/' :: rest) := h
  have hcons : StringAt buf path (['/'] ++ rest) := h
  have hrest : StringAt buf (path + 1) rest := hcons.suffix
  refine ⟨hrest.behind_slashes, fun W s hs => ?_⟩
  have hm : findMark path buf = .ok ⟨0, -1⟩ := hnil.findMark_eq (by nofun) fun _ => rfl
  rw [getdevice_result h hm hs, getdeviceAt, if_neg (by decide), if_neg (by decide),
    if_neg (by decide), if_pos rfl]
  refine result_kernel _ fun v t => ?_
  rw [result_reading hrest.skip_eq, Nat.add_right_comm]
  rfl

/-- A colon at the front. -/
theorem startsFrom_currentFs {rest : Str} (h : StringAt buf path (':' :: rest)) :
    StartsFrom buf path .currentFs (path + 1 + slashes rest) (skipSlashes rest) := by
  have hnil : StringAt buf path ([] ++ ':' :: rest) := h
  have hcons : StringAt buf path ([':'] ++ rest) := h
  have hrest : StringAt buf (path + 1) rest := hcons.suffix
  refine ⟨hrest.behind_slashes, fun W s hs => ?_⟩
  have hm : findMark path buf = .ok ⟨-1, 0⟩ := hnil.findMark_eq (by nofun) fun _ => rfl
  rw [getdevice_result h hm hs, getdeviceAt, if_neg (by decide), if_neg (by decide),
    if_neg (by decide), if_neg (by decide), if_neg (by decide)]
  refine result_kernel _ fun v t => ?_
  rw [result_reading hrest.skip_eq, Nat.add_right_comm]
  rfl

/-! ### Every string has a form -/

/-- A string up to its first mark. -/
theorem exists_first_mark (str : Str) : ∃ pre rest, str = pre ++ rest ∧ Plain pre ∧
    (rest = [] ∨ ∃ post, rest = ':' :: post ∨ rest = '/' :: post) := by
  induction str with
  | nil => exact ⟨[], [], rfl, by nofun, .inl rfl⟩
  | cons c str ih =>
      by_cases hc : c = ':' ∨ c = '/'
      · refine ⟨[], c :: str, rfl, by nofun, .inr ⟨str, ?_⟩⟩
        exact hc.imp (fun h => by rw [h]) (fun h => by rw [h])
      · obtain ⟨pre, rest, rfl, hplain, hrest⟩ := ih
        refine ⟨c :: pre, rest, rfl, fun d hd => ?_, hrest⟩
        rcases List.mem_cons.1 hd with rfl | hd
        · exact not_or.1 hc
        · exact hplain d hd

/-- When the first mark is a slash, it stands before every colon. -/
theorem slash_before_colon {pre post p post' : Str} (hplain : Plain pre)
    (h : pre ++ '/' :: post = p ++ ':' :: post') : '/' ∈ p := by
  rcases List.append_eq_append_iff.1 h with ⟨l, rfl, hl⟩ | ⟨l, rfl, hl⟩
  · cases l with
    | nil => exact absurd (List.cons.inj hl).1 (by decide)
    | cons c l =>
        rw [(List.cons.inj hl).1]
        exact List.mem_append_right pre List.mem_cons_self
  · cases l with
    | nil => exact absurd (List.cons.inj hl).1 (by decide)
    | cons c l =>
        have hc : ':' = c := (List.cons.inj hl).1
        have hmem : ':' ∈ p ++ c :: l := List.mem_append_right p (hc ▸ List.mem_cons_self)
        exact absurd rfl (hplain _ hmem).1

theorem exists_form (hne : str ≠ []) : ∃ start sub, Form str start sub := by
  obtain ⟨pre, rest, rfl, hplain, rfl | ⟨post, rfl | rfl⟩⟩ := exists_first_mark str
  · refine ⟨.curdir, _, .curdir (fun p post h => ?_) (fun post h => ?_)⟩
    · have hmem : ':' ∈ pre := by
        rw [← List.append_nil pre, h]
        exact List.mem_append_right p List.mem_cons_self
      exact absurd rfl (hplain _ hmem).1
    · have hmem : '/' ∈ pre := by
        rw [← List.append_nil pre, h]
        exact List.mem_cons_self
      exact absurd rfl (hplain _ hmem).2
  · by_cases hpre : pre = []
    · subst hpre
      exact ⟨.currentFs, _, .currentFs post rfl⟩
    · exact ⟨.device pre, _, .device pre post hpre (fun h => (hplain _ h).1 rfl)
        (fun h => (hplain _ h).2 rfl) rfl⟩
  · by_cases hpre : pre = []
    · subst hpre
      exact ⟨.bootfs, _, .bootfs post rfl⟩
    · obtain ⟨c, pre, rfl⟩ := List.exists_cons_of_ne_nil hpre
      refine ⟨.curdir, _, .curdir (fun p post' h => ?_) (fun post' h => ?_)⟩
      · exact slash_before_colon hplain h
      · rw [List.cons_append] at h
        exact absurd (List.cons.inj h).1 (hplain c List.mem_cons_self).2

/-- A path from the current directory up to its first slash. -/
theorem curdir_split (hne : str ≠ []) (hcolon : ∀ pre post, str = pre ++ ':' :: post → '/' ∈ pre)
    (hslash : ∀ post, str ≠ '/' :: post) : ∃ pre rest, str = pre ++ rest ∧ Plain pre ∧ pre ≠ [] ∧
      (rest = [] ∨ ∃ post, rest = '/' :: post) := by
  obtain ⟨pre, rest, rfl, hplain, hrest⟩ := exists_first_mark str
  refine ⟨pre, rest, rfl, hplain, ?_, ?_⟩
  · rintro rfl
    rcases hrest with rfl | ⟨post, rfl | rfl⟩
    · exact hne rfl
    · exact absurd (hcolon [] post rfl) List.not_mem_nil
    · exact hslash post rfl
  · rcases hrest with hnil | ⟨post, rfl | hpost⟩
    · exact .inl hnil
    · exact absurd rfl (hplain _ (hcolon pre post rfl)).2
    · exact .inr ⟨post, hpost⟩

/-- A string is parsed as its form says, and the subpath ends where the string ends. -/
theorem startsFrom_of_form (h : StringAt buf path str) (hne : str ≠ [])
    (hform : Form str start sub) :
    ∃ q, StartsFrom buf path start q sub ∧ q + sub.length = path + str.length := by
  cases hform with
  | curdir hcolon hslash =>
      refine ⟨path, ?_, rfl⟩
      obtain ⟨pre, rest, rfl, hplain, hpre, hrest⟩ := curdir_split hne hcolon hslash
      rcases hrest with rfl | ⟨post, rfl⟩
      · exact startsFrom_curdir h hpre (h.findMark_eq hplain fun _ => rfl) (by decide)
      · have hpos : (pre.length : Int) ≠ 0 := by
          rw [ne_eq, Int.natCast_eq_zero, List.length_eq_zero_iff]
          exact hpre
        exact startsFrom_curdir h hpre (h.findMark_eq hplain fun _ => rfl) hpos
  | device devname rest hdev hcolon hslash hstr =>
      subst hstr
      have hplain : Plain devname := fun c hc =>
        ⟨fun he => hcolon (he ▸ hc), fun he => hslash (he ▸ hc)⟩
      refine ⟨_, startsFrom_device h hdev hplain, ?_⟩
      have hle := skipSlashes_length_le rest
      rw [slashes, List.length_append, List.length_cons]
      omega
  | bootfs rest hstr =>
      subst hstr
      refine ⟨_, startsFrom_bootfs h, ?_⟩
      have hle := skipSlashes_length_le rest
      rw [slashes, List.length_cons]
      omega
  | currentFs rest hstr =>
      subst hstr
      refine ⟨_, startsFrom_currentFs h, ?_⟩
      have hle := skipSlashes_length_le rest
      rw [slashes, List.length_cons]
      omega

/-! ### Different starts can be told apart -/

/-- Every vnode is on a file system whose root is vnode 3. -/
def apart : World where
  vnFs _ _ := some 0
  vop _ _ := none
  vopGettype _ _ := .ok 0
  vopLookup _ v _ := .ok v
  vopLookparent _ v name := .ok (v, name)
  vopCreat _ v _ _ _ := .ok v
  fsopGetroot _ _ := .ok 3
  fsopGetvolname _ := none

/-- The current directory is vnode 0, the root of the boot file system vnode 1, and the only device
vnode 2. -/
def onlyDevice (devname : Str) : Vfs where
  knowndevs := [{ name := devname, rawname := none, device := some 0, vnode := 2, fs := .null }]
  depth := 1
  refcount _ := 1
  reclaimed := []
  curdir := some 0
  bootfs := some 1
  time := 0

/-- What the start answers there. -/
def Start.answer (devname : Str) : Start → Except Errno VnodeRef
  | .curdir => .ok 0
  | .bootfs => .ok 1
  | .device name => if name = devname then .ok 2 else .error .ENODEV
  | .currentFs => .ok 3

theorem vnode_answer (devname : Str) (start : Start) :
    ∃ t, (start.vnode apart).result (onlyDevice devname) = .ok (start.answer devname, t) := by
  cases start with
  | curdir => exact ⟨_, rfl⟩
  | bootfs => exact ⟨_, rfl⟩
  | currentFs => exact ⟨_, rfl⟩
  | device name =>
      have hwp : wp (fun _ => False) (vfsGetroot apart name)
          (fun r _ => r = Start.answer devname (.device name)) (onlyDevice devname) := by
        by_cases hn : name = devname
        · simp [vfsGetroot, biglockHeld, vopIncref, findRoot, Knowndev.root, onlyDevice,
            Start.answer, hn, Except.map]
        · simp [vfsGetroot, biglockHeld, findRoot, Knowndev.root, onlyDevice, Start.answer, hn,
            Ne.symm hn]
      obtain ⟨r, t, hr, rfl⟩ := hwp.exists_result
      exact ⟨t, hr⟩

theorem answer_eq_two {devname : Str} :
    start.answer devname = .ok 2 ↔ start = .device devname := by
  cases start <;> simp [Start.answer]

theorem start_of_answer (h : ∀ devname, start.answer devname = start'.answer devname) :
    start = start' := by
  have hnil := h []
  cases start' with
  | device name => exact answer_eq_two.1 ((h name).trans (if_pos rfl))
  | curdir =>
      cases start with
      | device name => exact absurd (h name) (by simp [Start.answer])
      | _ => simp [Start.answer] at hnil ⊢
  | bootfs =>
      cases start with
      | device name => exact absurd (h name) (by simp [Start.answer])
      | _ => simp [Start.answer] at hnil ⊢
  | currentFs =>
      cases start with
      | device name => exact absurd (h name) (by simp [Start.answer])
      | _ => simp [Start.answer] at hnil ⊢

/-- Two starts of one call give the same answer, with the same pointer. -/
theorem answer_of_startsFrom {q' : Nat} (h : StartsFrom buf path start q sub)
    (h' : StartsFrom buf path start' q' sub') (devname : Str) :
    (start.answer devname).map (fun v => (q, v)) =
      (start'.answer devname).map fun v => (q', v) := by
  obtain ⟨t, ht⟩ := vnode_answer devname start
  obtain ⟨t', ht'⟩ := vnode_answer devname start'
  have hrun := h.result apart (onlyDevice devname) Nat.one_pos
  have hrun' := h'.result apart (onlyDevice devname) Nat.one_pos
  rw [result_map, ht] at hrun
  rw [result_map, ht'] at hrun'
  exact (Prod.mk.inj (Except.ok.inj (hrun.symm.trans hrun'))).1

/-- `getdevice` starts from one place. -/
theorem startsFrom_unique {q' : Nat} (h : StartsFrom buf path start q sub)
    (h' : StartsFrom buf path start' q' sub') : start = start' ∧ q = q' ∧ sub = sub' := by
  have hanswer := answer_of_startsFrom h h'
  have hstart : start = start' := by
    refine start_of_answer fun devname => ?_
    have heq := hanswer devname
    cases ha : start.answer devname with
    | error e =>
        cases ha' : start'.answer devname <;> rw [ha, ha'] at heq
        · exact congrArg Except.error (Except.error.inj heq)
        · cases heq
    | ok v =>
        cases ha' : start'.answer devname <;> rw [ha, ha'] at heq
        · cases heq
        · exact congrArg Except.ok (Prod.mk.inj (Except.ok.inj heq)).2
  subst hstart
  have hq : q = q' := by
    obtain ⟨devname, v, hv⟩ : ∃ devname v, start.answer devname = .ok v := by
      cases start with
      | device name => exact ⟨name, 2, if_pos rfl⟩
      | _ => exact ⟨[], _, rfl⟩
    have heq := hanswer devname
    rw [hv] at heq
    exact (Prod.mk.inj (Except.ok.inj heq)).1
  subst hq
  exact ⟨rfl, rfl, h.subpath.eq h'.subpath⟩

end Forms

/-! ## The grammar -/

theorem Form.suffix {str sub : Str} {start : Start} (h : Form str start sub) : sub <:+ str := by
  have hskip : ∀ rest, skipSlashes rest <:+ rest := fun rest => List.dropWhile_suffix _
  cases h with
  | curdir => exact List.suffix_rfl
  | device devname rest _ _ _ hstr =>
      rw [hstr]
      exact (hskip rest).trans ((List.suffix_cons ':' rest).trans (List.suffix_append devname _))
  | bootfs rest hstr =>
      rw [hstr]
      exact (hskip rest).trans (List.suffix_cons '/' rest)
  | currentFs rest hstr =>
      rw [hstr]
      exact (hskip rest).trans (List.suffix_cons ':' rest)

theorem skipSlashes_ne (rest post : Str) : skipSlashes rest ≠ '/' :: post := by
  induction rest with
  | nil => nofun
  | cons c rest ih =>
      by_cases hc : c = '/'
      · rw [hc, skipSlashes_cons]
        exact ih
      · rw [skipSlashes_of_ne hc]
        exact fun h => hc (List.cons.inj h).1

/-- Every string that is not empty has one form, `getdevice` starts where the form says and nowhere
else, and the subpath is the end of the string, in the memory of the string. -/
theorem getdevice_grammar {buf : List Char} {path : Nat} {str : Str} (h : StringAt buf path str)
    (hne : str ≠ []) :
    (∃! form : Start × Str, Form str form.1 form.2) ∧
      (∀ start q sub, StartsFrom buf path start q sub ↔
        Form str start sub ∧ q + sub.length = path + str.length) ∧
      ∀ start sub, Form str start sub →
        sub <:+ str ∧ (start ≠ .curdir → ∀ post, sub ≠ '/' :: post) := by
  have hone : ∀ start sub start' sub', Form str start sub → Form str start' sub' →
      start = start' ∧ sub = sub' := by
    intro start sub start' sub' hform hform'
    obtain ⟨q, hq, -⟩ := startsFrom_of_form h hne hform
    obtain ⟨q', hq', -⟩ := startsFrom_of_form h hne hform'
    obtain ⟨hstart, -, hsub⟩ := startsFrom_unique hq hq'
    exact ⟨hstart, hsub⟩
  obtain ⟨start₀, sub₀, hform₀⟩ := exists_form hne
  obtain ⟨q₀, hstarts, hend⟩ := startsFrom_of_form h hne hform₀
  refine ⟨⟨(start₀, sub₀), hform₀, fun form hform => ?_⟩, fun start q sub => ⟨fun hs => ?_, ?_⟩, ?_⟩
  · obtain ⟨hstart, hsub⟩ := hone _ _ _ _ hform hform₀
    exact Prod.ext hstart hsub
  · obtain ⟨rfl, rfl, rfl⟩ := startsFrom_unique hstarts hs
    exact ⟨hform₀, hend⟩
  · rintro ⟨hform, hq⟩
    obtain ⟨rfl, rfl⟩ := hone _ _ _ _ hform hform₀
    obtain rfl : q = q₀ := by omega
    exact hstarts
  · intro start sub hform
    refine ⟨hform.suffix, fun hstart post => ?_⟩
    cases hform with
    | curdir => exact absurd rfl hstart
    | device _ rest => exact skipSlashes_ne rest post
    | bootfs rest => exact skipSlashes_ne rest post
    | currentFs rest => exact skipSlashes_ne rest post

/-- `hd://f` starts at the device `hd`; the subpath is the `f` at position 5. -/
theorem getdevice_grammar_device :
    StartsFrom ['h', 'd', ':', '/', '/', 'f', nul] 0 (.device ['h', 'd']) 5 ['f'] := by
  have h : StringAt ['h', 'd', ':', '/', '/', 'f', nul] 0 ['h', 'd', ':', '/', '/', 'f'] :=
    ⟨by decide, [], rfl⟩
  have hform : Form ['h', 'd', ':', '/', '/', 'f'] (.device ['h', 'd']) ['f'] :=
    .device ['h', 'd'] ['/', '/', 'f'] (by decide) (by decide) (by decide) rfl
  exact ((getdevice_grammar h (by decide)).2.1 _ _ _).2 ⟨hform, rfl⟩

/-! ## The split of a list of characters -/

section Refinement

variable {W : World} {s : Vfs} {buf : List Char} {path q : Nat} {str sub : Str} {start : Start}

theorem takeWhile_of_plain {pre rest : Str} (hplain : Plain pre)
    (hrest : rest = [] ∨ ∃ post, rest = ':' :: post ∨ rest = '/' :: post) :
    (pre ++ rest).takeWhile (!isMark ·) = pre ∧ (pre ++ rest).dropWhile (!isMark ·) = rest := by
  induction pre with
  | nil => rcases hrest with rfl | ⟨post, rfl | rfl⟩ <;> exact ⟨rfl, rfl⟩
  | cons c pre ih =>
      obtain ⟨htake, hdrop⟩ := ih fun d hd => hplain d (List.mem_cons_of_mem c hd)
      have hc : (!isMark c) = true := by simp [isMark, hplain c List.mem_cons_self]
      simp only [List.cons_append, List.takeWhile_cons, List.dropWhile_cons, hc, htake, hdrop]
      exact ⟨rfl, rfl⟩

/-- `Os161.Path.startOf` starts as the form says. -/
theorem startOf_of_form (hne : str ≠ []) (hform : Form str start sub) :
    startOf W str = (fun v => (sub, v)) <$> start.vnode W := by
  cases hform with
  | curdir hcolon hslash =>
      obtain ⟨pre, rest, rfl, hplain, hpre, hrest⟩ := curdir_split hne hcolon hslash
      obtain ⟨c, pre, rfl⟩ := List.exists_cons_of_ne_nil hpre
      obtain ⟨htake, hdrop⟩ := takeWhile_of_plain hplain
        (hrest.imp_right fun ⟨post, h⟩ => ⟨post, .inr h⟩)
      rw [startOf, htake, hdrop, map_eq_pure_bind]
      rcases hrest with rfl | ⟨post, rfl⟩ <;> rfl
  | device devname rest hdev hcolon hslash hstr =>
      subst hstr
      have hplain : Plain devname := fun c hc =>
        ⟨fun he => hcolon (he ▸ hc), fun he => hslash (he ▸ hc)⟩
      obtain ⟨c, dev, rfl⟩ := List.exists_cons_of_ne_nil hdev
      obtain ⟨htake, hdrop⟩ := takeWhile_of_plain hplain (.inr ⟨rest, .inl rfl⟩)
      rw [startOf, htake, hdrop, map_eq_pure_bind]
      rfl
  | bootfs rest hstr =>
      subst hstr
      rw [map_eq_pure_bind, Start.vnode, bind_assoc]
      refine bind_congr fun s => ?_
      cases s.bootfs with
      | none => rfl
      | some boot => rfl
  | currentFs rest hstr =>
      subst hstr
      rw [map_eq_pure_bind, Start.vnode, bind_assoc]
      refine bind_congr fun vn => ?_
      rw [bind_assoc]
      refine bind_congr fun fs => ?_
      cases fs with
      | none => rfl
      | some fs => simp only [bind_assoc]

/-- The pointer to what is left of the string `str`. -/
def subpathAt (path : Nat) (str sub : Str) : Nat := path + (str.length - sub.length)

/-- `getdevice` on memory splits the string as `Os161.Path.getdevice` splits the list of its
characters. -/
theorem getdevice_refines (W : World) (s : Vfs) (h : StringAt buf path str) : ∃ buf',
    (getdevice W path).result (s, buf) =
      onMemory buf' (((fun x => (subpathAt path str x.1, x.2)) <$> Path.getdevice W str).result s) ∧
    ∀ sub v t, (Path.getdevice W str).result s = .ok (.ok (sub, v), t) →
      StringAt buf' (subpathAt path str sub) sub := by
  cases hd : s.depth with
  | zero =>
      have hheld := biglockHeld_zero hd
      have hpath : (Path.getdevice W str).result s = .error .biglock := by
        rw [Path.getdevice, result_bind, hheld]
      refine ⟨buf, ?_, fun sub v t hr => by rw [hpath] at hr; cases hr⟩
      have hk : (kernel biglockHeld).result (s, buf) = .error (.panic .biglock) :=
        congrArg (onMemory buf) hheld
      rw [getdevice, result_bind, hk, result_map, hpath]
      rfl
  | succ n =>
      have hs : 0 < s.depth := by omega
      have hpath : (Path.getdevice W str).result s =
          (if str = [] then throw .EINVAL else startOf W str).result s := by
        rw [Path.getdevice, result_bind, biglockHeld_pos hs]
      by_cases hne : str = []
      · subst hne
        rw [if_pos rfl] at hpath
        refine ⟨buf, ?_, fun sub v t hr => by rw [hpath] at hr; cases hr⟩
        rw [getdevice, result_held hs, result_reading h.charAt_nil, if_pos rfl, result_map, hpath]
        rfl
      · obtain ⟨start, sub, hform⟩ := exists_form hne
        obtain ⟨q, hstarts, hend⟩ := startsFrom_of_form h hne hform
        have hle := hform.suffix.length_le
        have hq : subpathAt path str sub = q := by
          rw [subpathAt]
          omega
        rw [if_neg hne, startOf_of_form hne hform] at hpath
        refine ⟨start.cut buf path, ?_, fun sub' v t hr => ?_⟩
        · rw [hstarts.result W s hs, result_map, result_map, hpath, result_map]
          cases (start.vnode W).result s with
          | error p => rfl
          | ok x =>
              obtain ⟨r, t⟩ := x
              cases r with
              | error e => rfl
              | ok v =>
                  dsimp only [Except.map]
                  rw [hq]
        · rw [hpath, result_map] at hr
          obtain rfl : sub = sub' := by
            cases hv : (start.vnode W).result s with
            | error p => rw [hv] at hr; cases hr
            | ok x =>
                obtain ⟨r, t⟩ := x
                rw [hv] at hr
                cases r with
                | error e => cases hr
                | ok v =>
                    cases hr
                    rfl
          rw [hq]
          exact hstarts.subpath

theorem result_catching {σ π ε α : Type} (m : Call σ π ε α) (s : σ) : (catching m).result s =
    match m.result s with
    | .ok (r, t) => .ok (.ok r, t)
    | .error p => .error p := rfl

theorem result_of_kernel {α : Type} (m : VfsCall α) :
    (kernel m).result (s, buf) = onMemory buf (m.result s) := rfl

theorem catching_kernel {α : Type} (m : VfsCall α) :
    catching (kernel m) = kernel (catching m) := by
  funext x
  obtain ⟨s, buf⟩ := x
  change (catching (kernel m)).result (s, buf) = (kernel (catching m)).result (s, buf)
  rw [result_catching, result_of_kernel, result_of_kernel, result_catching]
  cases m.result s <;> rfl

/-- `vfs_lookup` on memory finds what `Os161.Path.vfsLookup` finds for the string. -/
theorem vfsLookup_refines (W : World) (s : Vfs) (h : StringAt buf path str) : ∃ buf',
    (vfsLookup W path).result (s, buf) = onMemory buf' ((Path.vfsLookup W str).result s) := by
  obtain ⟨buf', hrun, hsub⟩ := getdevice_refines W (locked s) h
  refine ⟨buf', ?_⟩
  have hacq : (kernel biglockAcquire).result (s, buf) = .ok (.ok (), locked s, buf) := rfl
  have hacq' : biglockAcquire.result s = .ok (.ok (), locked s) := rfl
  rw [vfsLookup, Path.vfsLookup, result_bind, result_bind, hacq, hacq']
  dsimp only
  rw [result_bind, result_bind, result_catching, result_catching, hrun, result_map]
  cases hdev : (Path.getdevice W str).result (locked s) with
  | error p => rfl
  | ok x =>
      obtain ⟨r, t⟩ := x
      cases r with
      | error e => exact result_kernel_bind fun _ _ => rfl
      | ok x =>
          obtain ⟨sub, v⟩ := x
          change (reading (cstring (subpathAt path str sub)) >>= _).result (t, buf') = _
          rw [result_reading (hsub sub v t hdev).cstring_eq]
          cases sub with
          | nil => exact result_kernel_bind fun _ _ => rfl
          | cons c sub =>
              have hlen : ¬(c :: sub).length = 0 := Nat.succ_ne_zero _
              have hcons : ¬c :: sub = [] := List.cons_ne_nil c sub
              dsimp only
              rw [if_neg hlen, if_neg hcons, catching_kernel]
              -- the rest is the same calls, one after another
              refine result_kernel_bind fun r _ => ?_
              refine result_kernel_bind fun _ _ => ?_
              refine result_kernel_bind fun _ _ => ?_
              cases r <;> rfl

/-- The device name of `hd:/f` is cut off where the path is stored. -/
theorem vfsLookup_refines_device : ∃ buf',
    (vfsLookup apart 0).result (onlyDevice ['h', 'd'], ['h', 'd', ':', '/', 'f', nul]) =
      onMemory buf' ((Path.vfsLookup apart ['h', 'd', ':', '/', 'f']).result
        (onlyDevice ['h', 'd'])) :=
  vfsLookup_refines apart (onlyDevice ['h', 'd']) ⟨by decide, [], rfl⟩

end Refinement

end Os161.Path.InPlace
