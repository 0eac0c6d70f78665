import Mathlib.Data.List.Basic
import Os161.Libc.Printf
import Os161.Libc.Qsort

set_option autoImplicit false

/-!
# Directory entries in the checker

The entries that pass 1 leaves in a directory (`pass1_direntry` of `userland/sbin/sfsck/pass1.c`),
and their order (`dirsortfunc` and `sfsdir_sort` of `sfs.c`), with `strcmp` and what `snprintf`
prints for `FSCK.%lu.%lu`. The order is the one of the strings in the name fields, with the entries
that are not in use last.
-/

namespace Os161.Sfsck.Direntries

open Os161.Lib.Shuffles
open Os161.Lib.Numerals (numeral numeral_div numeral_of_lt numeral_isNumeral length_numeral_le)
open Os161.Libc.Printf (digitChar)
open Os161.Libc.Qsort (Comparison Sorted qsort qsort_sorts)

/-- `SFS_NAMELEN`. -/
def namelen : Nat := 60

/-- `struct sfs_direntry`. -/
structure Direntry where
  ino : UInt32
  name : List UInt8
  length_name : name.length = namelen

/-- A directory entry with an end of the string in its name field. -/
structure Entry extends Direntry where
  terminated : 0 ∈ name

/-! ## Strings in fields -/

/-- The string at the start of a field. -/
def string (buf : List UInt8) : List UInt8 := buf.takeWhile fun c => c ≠ 0

/-- `buf[0]`. -/
def first (buf : List UInt8) : UInt8 := buf.headD 0

/-- `buf[0] = 0`. -/
def clear (buf : List UInt8) : List UInt8 := buf.set 0 0

/-- `checknullstring`. -/
def checknullstring (buf : List UInt8) : List UInt8 × Bool :=
  if 0 ∈ buf then (buf, false) else (buf.set (buf.length - 1) 0, true)

/-- `checkbadstring`. -/
def checkbadstring : List UInt8 → List UInt8 × Bool
  | [] => ([], false)
  | c :: buf =>
      if c = 0 then (c :: buf, false)
      else
        let (buf, rv) := checkbadstring buf
        if c = 58 ∨ c = 47 then (95 :: buf, true) else (c :: buf, rv)

/-- `strcmp`, up to the end of one of the two arrays. -/
def strcmp : List UInt8 → List UInt8 → Int
  | a :: as, b :: bs =>
      if a ≠ 0 ∧ a = b then strcmp as bs
      else if b < a then 1
      else if a = b then 0
      else -1
  | _, _ => 0

/-- The loop of `__pf_printnum`: the digits go in front of what is in the buffer. -/
def printnum (xnum : Nat) (x : List UInt8) : List UInt8 :=
  let x := .ofNat (48 + xnum % 10) :: x
  if 0 < xnum / 10 then printnum (xnum / 10) x else x
termination_by xnum
decreasing_by omega

/-- `snprintf`, of a text that has been formatted. -/
def snprintf (buf text : List UInt8) : List UInt8 :=
  let sent := text.take (buf.length - 1)
  sent ++ 0 :: buf.drop (sent.length + 1)

/-- `FSCK.%lu.%lu`. -/
def fsckName (ino id : UInt32) : List UInt8 :=
  [70, 83, 67, 75, 46] ++ printnum ino.toNat [] ++ 46 :: printnum id.toNat []

section Fields

variable {buf text a b c : List UInt8} {n m : Nat}

theorem first_eq_zero_iff : first buf = 0 ↔ string buf = [] := by
  cases buf with
  | nil => exact iff_of_true rfl rfl
  | cons c buf =>
      by_cases hc : c = 0
      · subst hc
        exact iff_of_true rfl rfl
      · rw [string, List.takeWhile_cons_of_pos (by simp [hc])]
        exact iff_of_false hc (List.cons_ne_nil _ _)

theorem zero_mem_of_first (h : buf ≠ []) (h0 : first buf = 0) : 0 ∈ buf := by
  cases buf with
  | nil => exact absurd rfl h
  | cons c buf =>
      rw [show c = 0 from h0]
      exact List.mem_cons_self

theorem length_clear : (clear buf).length = buf.length := List.length_set

theorem zero_mem_clear (h : buf ≠ []) : 0 ∈ clear buf := by
  cases buf with
  | nil => exact absurd rfl h
  | cons c buf => exact List.mem_cons_self

theorem string_clear (buf : List UInt8) : string (clear buf) = [] := by
  cases buf with
  | nil => rfl
  | cons c buf => rfl

theorem length_checknullstring : (checknullstring buf).1.length = buf.length := by
  rw [checknullstring]
  split
  · rfl
  · exact List.length_set

theorem zero_mem_checknullstring (h : buf ≠ []) : 0 ∈ (checknullstring buf).1 := by
  rw [checknullstring]
  split
  case isTrue hmem => exact hmem
  case isFalse hmem =>
    have hpos := List.length_pos_iff.2 h
    exact List.mem_set (by omega) 0

theorem length_checkbadstring (buf : List UInt8) :
    (checkbadstring buf).1.length = buf.length := by
  induction buf with
  | nil => rfl
  | cons c buf ih =>
      rw [checkbadstring]
      split
      · rfl
      · dsimp only
        split
        · exact congrArg Nat.succ ih
        · exact congrArg Nat.succ ih

theorem checknullstring_eq_self (h : 0 ∈ buf) : checknullstring buf = (buf, false) := if_pos h

theorem first_checknullstring (h : 1 < buf.length) : first (checknullstring buf).1 = first buf := by
  rw [checknullstring]
  split
  · rfl
  · cases buf with
    | nil => rfl
    | cons c buf =>
        -- the byte that is overwritten is not the first one
        obtain ⟨n, hn⟩ : ∃ n, (c :: buf).length - 1 = n + 1 := ⟨buf.length - 1, by
          rw [List.length_cons] at h ⊢
          omega⟩
        rw [hn, List.set_cons_succ]
        rfl

theorem first_checkbadstring (h : first buf ≠ 0) : first (checkbadstring buf).1 ≠ 0 := by
  cases buf with
  | nil => exact absurd rfl h
  | cons c buf =>
      have hc : c ≠ 0 := h
      rw [checkbadstring, if_neg hc]
      dsimp only
      split
      · show (95 : UInt8) ≠ 0
        decide
      · exact hc

/-- It stops at the end of the string. -/
theorem zero_mem_checkbadstring (h : 0 ∈ buf) : 0 ∈ (checkbadstring buf).1 := by
  induction buf with
  | nil => exact h
  | cons c buf ih =>
      rw [checkbadstring]
      split
      case isTrue hc => exact h
      case isFalse hc =>
        have hmem := ih ((List.mem_cons.1 h).resolve_left (Ne.symm hc))
        dsimp only
        split
        · exact List.mem_cons_of_mem _ hmem
        · exact List.mem_cons_of_mem _ hmem

theorem checkbadstring_clean (buf : List UInt8) :
    ∀ c ∈ string (checkbadstring buf).1, c ≠ 58 ∧ c ≠ 47 := by
  induction buf with
  | nil =>
      intro c hc
      exact nomatch hc
  | cons d buf ih =>
      intro c hc
      rw [checkbadstring] at hc
      split at hc
      case isTrue hd =>
        rw [string, List.takeWhile_cons_of_neg (by simp [hd])] at hc
        exact nomatch hc
      case isFalse hd =>
        dsimp only at hc
        split at hc
        case isTrue hbad =>
          rcases List.mem_cons.1 hc with rfl | hc
          · decide
          · exact ih c hc
        case isFalse hgood =>
          rw [string, List.takeWhile_cons_of_pos (by simp [hd])] at hc
          rcases List.mem_cons.1 hc with rfl | hc
          · exact not_or.1 hgood
          · exact ih c hc

/-- A string without such characters is left alone. -/
theorem checkbadstring_eq_self (h : ∀ c ∈ string buf, c ≠ 58 ∧ c ≠ 47) :
    checkbadstring buf = (buf, false) := by
  induction buf with
  | nil => rfl
  | cons d buf ih =>
      rw [checkbadstring]
      split
      case isTrue hd => rfl
      case isFalse hd =>
        rw [string, List.takeWhile_cons_of_pos (by simp [hd])] at h
        obtain ⟨hgood, hrest⟩ := List.forall_mem_cons.1 h
        rw [ih hrest]
        exact if_neg (not_or.2 hgood)

theorem checkbadstring_of_false (h : (checkbadstring buf).2 = false) :
    checkbadstring buf = (buf, false) := by
  induction buf with
  | nil => rfl
  | cons d buf ih =>
      rw [checkbadstring] at h ⊢
      split_ifs at h ⊢ with hd hbad
      · rfl
      · rw [ih h]

/-! ### The order of the strings -/

theorem string_cons_ne_zero {x : UInt8} (hx : x ≠ 0) : string (x :: a) = x :: string a :=
  List.takeWhile_cons_of_pos (by simp [hx])

theorem string_cons_zero : string (0 :: a) = [] := rfl

theorem strcmp_same {x : UInt8} (hx : x ≠ 0) : strcmp (x :: a) (x :: b) = strcmp a b := by
  rw [strcmp, if_pos ⟨hx, rfl⟩]

theorem strcmp_ends : strcmp (0 :: a) (0 :: b) = 0 := rfl

theorem strcmp_of_lt {x y : UInt8} (h : x < y) : strcmp (x :: a) (y :: b) = -1 := by
  have hne : x ≠ y := UInt8.ne_of_lt h
  rw [strcmp, if_neg fun h' => hne h'.2, if_neg (UInt8.lt_asymm h), if_neg hne]

theorem strcmp_of_gt {x y : UInt8} (h : y < x) : strcmp (x :: a) (y :: b) = 1 := by
  rw [strcmp, if_neg fun h' => UInt8.ne_of_lt h h'.2.symm, if_pos h]

theorem eq_or_lt_or_gt (x y : UInt8) : x = y ∨ x < y ∨ y < x := by
  by_cases h : x = y
  · exact .inl h
  · exact .inr (UInt8.lt_or_lt_of_ne h)

theorem strcmp_flip (a b : List UInt8) : strcmp b a = -strcmp a b := by
  induction a generalizing b with
  | nil =>
      cases b with
      | nil => rfl
      | cons y bs => rfl
  | cons x as ih =>
      cases b with
      | nil => rfl
      | cons y bs =>
          rcases eq_or_lt_or_gt x y with rfl | hlt | hgt
          · by_cases hx : x = 0
            · rw [hx, strcmp_ends, strcmp_ends]
              rfl
            · rw [strcmp_same hx, strcmp_same hx, ih]
          · rw [strcmp_of_lt hlt, strcmp_of_gt hlt]
            rfl
          · rw [strcmp_of_lt hgt, strcmp_of_gt hgt]

/-- `strcmp` compares the strings. -/
theorem strcmp_nonpos_iff (ha : 0 ∈ a) (hb : 0 ∈ b) : strcmp a b ≤ 0 ↔ string a ≤ string b := by
  induction a generalizing b with
  | nil => exact nomatch ha
  | cons x as ih =>
      cases b with
      | nil => exact nomatch hb
      | cons y bs =>
          rcases eq_or_lt_or_gt x y with rfl | hlt | hgt
          · by_cases hx : x = 0
            · rw [hx, strcmp_ends]
              exact iff_of_true (Int.le_refl 0) (List.le_refl _)
            · rw [strcmp_same hx, string_cons_ne_zero hx, string_cons_ne_zero hx,
                List.cons_le_cons_iff,
                ih ((List.mem_cons.1 ha).resolve_left (Ne.symm hx))
                  ((List.mem_cons.1 hb).resolve_left (Ne.symm hx))]
              exact ⟨fun h => .inr ⟨rfl, h⟩, fun h => (h.resolve_left (UInt8.lt_irrefl x)).2⟩
          · have hy : y ≠ 0 := by
              rintro rfl
              exact UInt8.not_lt_zero hlt
            rw [strcmp_of_lt hlt, string_cons_ne_zero hy]
            refine iff_of_true (by decide) ?_
            by_cases hx : x = 0
            · rw [hx, string_cons_zero]
              exact List.nil_le _
            · rw [string_cons_ne_zero hx, List.cons_le_cons_iff]
              exact .inl hlt
          · have hx : x ≠ 0 := by
              rintro rfl
              exact UInt8.not_lt_zero hgt
            rw [strcmp_of_gt hgt, string_cons_ne_zero hx]
            refine iff_of_false (by decide) (List.not_le.2 ?_)
            by_cases hy : y = 0
            · rw [hy, string_cons_zero]
              exact List.nil_lt_cons _ _
            · rw [string_cons_ne_zero hy, List.cons_lt_cons_iff]
              exact .inl hgt

theorem strcmp_eq_zero_iff (ha : 0 ∈ a) (hb : 0 ∈ b) : strcmp a b = 0 ↔ string a = string b := by
  have hflip := strcmp_flip a b
  have hab := strcmp_nonpos_iff ha hb
  have hba := strcmp_nonpos_iff hb ha
  constructor
  · intro h
    exact List.le_antisymm (hab.1 (by omega)) (hba.1 (by omega))
  · intro h
    have hle := hab.2 (by rw [h]; exact List.le_refl _)
    have hge := hba.2 (by rw [h]; exact List.le_refl _)
    omega

/-! ### Printed names -/

theorem printnum_append (xnum : Nat) (x : List UInt8) :
    printnum xnum x = printnum xnum [] ++ x := by
  induction xnum using Nat.strongRecOn generalizing x with
  | _ xnum ih =>
      rw [printnum]
      conv_rhs => rw [printnum]
      split
      case isTrue hpos =>
        rw [ih _ (by omega), ih (xnum / 10) (by omega) [_], List.append_assoc]
        rfl
      case isFalse hzero => rfl

/-- The digits are those of `__vprintf` in base ten. -/
theorem printnum_eq (xnum : Nat) :
    printnum xnum [] = (numeral 10 xnum).map fun d => .ofNat (digitChar d).toNat := by
  have hdigit : ∀ d < 10, (.ofNat (48 + d) : UInt8) = .ofNat (digitChar d).toNat := by
    decide +kernel
  induction xnum using Nat.strongRecOn with
  | _ xnum ih =>
      rw [printnum]
      split
      case isTrue hpos =>
        have hge : 10 ≤ xnum := by omega
        rw [printnum_append, ih _ (by omega), numeral_div (by decide) hge, List.map_append,
          hdigit _ (Nat.mod_lt _ (by decide))]
        rfl
      case isFalse hzero =>
        have hlt : xnum < 10 := by omega
        rw [numeral_of_lt hlt, Nat.mod_eq_of_lt hlt, hdigit _ hlt]
        rfl

/-- The digits are `0` to `9`. -/
theorem mem_printnum (xnum : Nat) : ∀ c ∈ printnum xnum [], 48 ≤ c ∧ c ≤ 57 := by
  have hdigit : ∀ d < 10, 48 ≤ (.ofNat (digitChar d).toNat : UInt8) ∧
      (.ofNat (digitChar d).toNat : UInt8) ≤ 57 := by
    decide +kernel
  intro c hc
  rw [printnum_eq] at hc
  obtain ⟨d, hd, rfl⟩ := List.mem_map.1 hc
  exact hdigit d ((numeral_isNumeral (by decide) xnum).digit_lt d hd)

/-- The number that a list of digits stands for. -/
def value (digits : List UInt8) : Nat := digits.foldl (fun n c => 10 * n + (c.toNat - 48)) 0

theorem value_printnum (xnum : Nat) : value (printnum xnum []) = xnum := by
  have hdigit : ∀ d < 10, (.ofNat (digitChar d).toNat : UInt8).toNat - 48 = d := by
    decide +kernel
  have hnum := numeral_isNumeral (b := 10) (by decide) xnum
  rw [printnum_eq, value, List.foldl_map]
  refine Eq.trans (List.foldl_ext _ _ 0 fun n d hd => ?_) hnum.value_eq
  rw [hdigit d (hnum.digit_lt d hd)]

theorem printnum_injective (h : printnum m [] = printnum n []) : m = n := by
  rw [← value_printnum m, h, value_printnum]

theorem length_printnum_le (xnum : Nat) (h : xnum < 10 ^ (n + 1)) :
    (printnum xnum []).length ≤ n + 1 := by
  rw [printnum_eq, List.length_map]
  exact length_numeral_le (by decide) (Nat.succ_pos n) h

/-- Two renamed entries with different ids have different names. -/
theorem fsckName_injective {ino ino' id id' : UInt32} (h : fsckName ino id = fsckName ino' id') :
    id = id' := by
  have hdot : ∀ k : UInt32, (46 : UInt8) ∉ printnum k.toNat [] := fun k hk =>
    absurd (mem_printnum _ _ hk).1 (by decide)
  rw [fsckName, fsckName, List.append_assoc, List.append_assoc, List.append_cancel_left_eq] at h
  obtain ⟨-, -, hid⟩ := (List.append_cons_inj_of_notMem (hdot ino) (hdot id)).1 h
  exact UInt32.toNat_inj.1 (printnum_injective hid)

theorem mem_fsckName {ino id : UInt32} : ∀ c ∈ fsckName ino id, c ≠ 0 ∧ c ≠ 58 ∧ c ≠ 47 := by
  have hdigit : ∀ n : Nat, ∀ c ∈ printnum n [], c ≠ 0 ∧ c ≠ 58 ∧ c ≠ 47 := by
    intro n c hc
    obtain ⟨hlo, hhi⟩ := mem_printnum n c hc
    refine ⟨?_, ?_, ?_⟩
    · rintro rfl
      exact absurd hlo (by decide)
    · rintro rfl
      exact absurd hhi (by decide)
    · rintro rfl
      exact absurd hlo (by decide)
  have hdot : (46 : UInt8) ≠ 0 ∧ (46 : UInt8) ≠ 58 ∧ (46 : UInt8) ≠ 47 := by decide
  have hstart : ∀ c ∈ ([70, 83, 67, 75, 46] : List UInt8), c ≠ 0 ∧ c ≠ 58 ∧ c ≠ 47 := by
    decide +kernel
  intro c hc
  rw [fsckName, List.append_assoc] at hc
  rcases List.mem_append.1 hc with hc | hc
  · exact hstart c hc
  · rcases List.mem_append.1 hc with hc | hc
    · exact hdigit _ c hc
    · rcases List.mem_cons.1 hc with rfl | hc
      · exact hdot
      · exact hdigit _ c hc

/-- The invented names fit into the field. -/
theorem length_fsckName_le (ino id : UInt32) : (fsckName ino id).length ≤ 26 := by
  have hlen : ∀ n : UInt32, (printnum n.toNat []).length ≤ 10 := fun n =>
    length_printnum_le n.toNat (Nat.lt_of_lt_of_le n.toNat_lt (by decide))
  have hino := hlen ino
  have hid := hlen id
  rw [fsckName, List.length_append, List.length_append, List.length_cons]
  show 5 + _ + (_ + 1) ≤ 26
  omega

theorem length_snprintf (h : buf ≠ []) : (snprintf buf text).length = buf.length := by
  have hpos := List.length_pos_iff.2 h
  rw [snprintf, List.length_append, List.length_cons, List.length_drop, List.length_take]
  omega

theorem first_snprintf {c : UInt8} (h : 1 < buf.length) : first (snprintf buf (c :: text)) = c := by
  obtain ⟨n, hn⟩ : ∃ n, buf.length - 1 = n + 1 := ⟨buf.length - 2, by omega⟩
  rw [snprintf, hn]
  rfl

theorem zero_mem_snprintf : 0 ∈ snprintf buf text :=
  List.mem_append_right _ List.mem_cons_self

theorem string_snprintf (hlen : text.length < buf.length) (htext : ∀ c ∈ text, c ≠ 0) :
    string (snprintf buf text) = text := by
  rw [snprintf, List.take_of_length_le (by omega), string,
    List.takeWhile_append_of_pos (fun c hc => decide_eq_true (htext c hc)),
    List.takeWhile_cons_of_neg (by decide), List.append_nil]

end Fields

/-! ## What the checker reports -/

/-- What `warnx` says; the names are those of the directories and entries. -/
inductive Warning where
  /-- `Directory %s entry %lu has name but no file`. -/
  | nameNoFile (path : String) (index : UInt32)
  /-- `Directory %s entry %lu has out of range inode (cleared)`. -/
  | outOfRange (path : String) (index : UInt32)
  /-- `Directory %s entry %lu has file but no name (fixed: %s)`. -/
  | fileNoName (path : String) (index : UInt32) (name : List UInt8)
  /-- `Directory %s entry %lu not null-terminated (fixed)`. -/
  | notTerminated (path : String) (index : UInt32)
  /-- `Directory %s entry %lu contains invalid characters (fixed)`. -/
  | invalidCharacters (path : String) (index : UInt32)
  /-- `Directory %s: Duplicate entries for %s (merged)`. -/
  | merged (pathsofar : String) (name : List UInt8)
  /-- `Directory %s: Duplicate names %s (one renamed: %s)`. -/
  | renamed (pathsofar : String) (name newname : List UInt8)
  deriving DecidableEq, Repr

/-- `uniquecounter`, `badness` and what has been said. -/
structure Report where
  uniquecounter : UInt32
  badness : Nat
  warnings : List Warning
  deriving DecidableEq, Repr

/-- `setbadness(EXIT_RECOV); warnx(..)`. -/
def Report.recov (s : Report) (w : Warning) : Report :=
  { s with badness := max s.badness 1, warnings := s.warnings ++ [w] }

/-- The counter after `uniqueid`, which returns it as it was. -/
def Report.uniqueid (s : Report) : Report := { s with uniquecounter := s.uniquecounter + 1 }

/-! ## Pass 1 -/

namespace Direntry

theorem name_ne_nil (sfd : Direntry) : sfd.name ≠ [] := by
  intro h
  have hlen := sfd.length_name
  rw [h] at hlen
  exact absurd hlen (by decide)

/-- `sfd->sfd_name[0] = 0`. -/
def clearName (sfd : Direntry) : Direntry :=
  { sfd with name := clear sfd.name, length_name := length_clear.trans sfd.length_name }

/-- `snprintf(sfd->sfd_name, sizeof(sfd->sfd_name), ..)`. -/
def printName (sfd : Direntry) (text : List UInt8) : Direntry :=
  { sfd with
    name := snprintf sfd.name text
    length_name := (length_snprintf sfd.name_ne_nil).trans sfd.length_name }

/-- `checknullstring(sfd->sfd_name, sizeof(sfd->sfd_name))`. -/
def checknullName (sfd : Direntry) : Direntry × Bool :=
  ({ sfd with
     name := (checknullstring sfd.name).1
     length_name := length_checknullstring.trans sfd.length_name },
   (checknullstring sfd.name).2)

/-- `checkbadstring(sfd->sfd_name)`. -/
def checkbadName (sfd : Direntry) : Direntry × Bool :=
  ({ sfd with
     name := (checkbadstring sfd.name).1
     length_name := (length_checkbadstring sfd.name).trans sfd.length_name },
   (checkbadstring sfd.name).2)

end Direntry

/-- The first test of the last case of `pass1_direntry`. -/
def fixName (path : String) (index : UInt32) (sfd : Direntry) (s : Report) :
    Direntry × Bool × Report :=
  if first sfd.name = 0 then
    let sfd := sfd.printName (fsckName sfd.ino s.uniquecounter)
    (sfd, true, s.uniqueid.recov (.fileNoName path index (string sfd.name)))
  else (sfd, false, s)

/-- `pass1_direntry`. -/
def pass1Direntry (nblocks : UInt32) (path : String) (index : UInt32) (sfd : Direntry)
    (s : Report) : Direntry × Bool × Report :=
  if sfd.ino = 0 then
    if first sfd.name ≠ 0 then (sfd.clearName, true, s.recov (.nameNoFile path index))
    else (sfd, false, s)
  else if nblocks ≤ sfd.ino then
    ({ sfd.clearName with ino := 0 }, true, s.recov (.outOfRange path index))
  else
    let (sfd, named, s) := fixName path index sfd s
    let (sfd, unended) := sfd.checknullName
    let s := if unended then s.recov (.notTerminated path index) else s
    let (sfd, bad) := sfd.checkbadName
    let s := if bad then s.recov (.invalidCharacters path index) else s
    (sfd, named || unended || bad, s)

/-- An entry as pass 1 leaves it: either it is free and has no name, or it names a block of the
volume and has a name without colons and slashes. -/
def Clean (nblocks : UInt32) (sfd : Direntry) : Prop :=
  (sfd.ino = 0 ∧ first sfd.name = 0) ∨
    (sfd.ino ≠ 0 ∧ sfd.ino < nblocks ∧ first sfd.name ≠ 0 ∧ 0 ∈ sfd.name ∧
      ∀ c ∈ string sfd.name, c ≠ 58 ∧ c ≠ 47)

section Pass1

variable {nblocks index : UInt32} {path : String} {sfd : Direntry} {s : Report}

theorem Clean.terminated (h : Clean nblocks sfd) : 0 ∈ sfd.name := by
  rcases h with ⟨-, hfirst⟩ | ⟨-, -, -, hmem, -⟩
  · exact zero_mem_of_first sfd.name_ne_nil hfirst
  · exact hmem

theorem first_clearName (sfd : Direntry) : first sfd.clearName.name = 0 :=
  first_eq_zero_iff.2 (string_clear sfd.name)

theorem fixName_spec (path : String) (index : UInt32) (sfd : Direntry) (s : Report) :
    (fixName path index sfd s).1.ino = sfd.ino ∧
    first (fixName path index sfd s).1.name ≠ 0 := by
  rw [fixName]
  split
  case isTrue h =>
    have hlen : 1 < sfd.name.length := by
      rw [sfd.length_name]
      decide
    refine ⟨rfl, ?_⟩
    show first (snprintf sfd.name (fsckName sfd.ino s.uniquecounter)) ≠ 0
    rw [show fsckName sfd.ino s.uniquecounter = 70 :: _ from rfl, first_snprintf hlen]
    decide
  case isFalse h => exact ⟨rfl, h⟩

theorem clean_pass1Direntry : Clean nblocks (pass1Direntry nblocks path index sfd s).1 := by
  rw [pass1Direntry]
  split
  case isTrue hfree =>
    split
    case isTrue hname => exact .inl ⟨hfree, first_clearName sfd⟩
    case isFalse hname => exact .inl ⟨hfree, not_not.1 hname⟩
  case isFalse hused =>
    split
    case isTrue hout => exact .inl ⟨rfl, first_clearName sfd⟩
    case isFalse hin =>
      obtain ⟨hino, hfirst⟩ := fixName_spec path index sfd s
      dsimp only
      generalize (fixName path index sfd s).1 = named at hino hfirst
      have hlen : 1 < named.name.length := by
        rw [named.length_name]
        decide
      refine .inr ⟨?_, ?_, ?_, ?_, ?_⟩
      · show named.ino ≠ 0
        rw [hino]
        exact hused
      · show named.ino < nblocks
        rw [hino]
        exact UInt32.not_le.1 hin
      · refine first_checkbadstring ?_
        rw [show named.checknullName.1.name = (checknullstring named.name).1 from rfl,
          first_checknullstring hlen]
        exact hfirst
      · exact zero_mem_checkbadstring (zero_mem_checknullstring named.name_ne_nil)
      · exact checkbadstring_clean _

/-- Pass 1 leaves its own results alone, so that every directory with such entries reaches
pass 2. -/
theorem pass1Direntry_of_clean (h : Clean nblocks sfd) :
    pass1Direntry nblocks path index sfd s = (sfd, false, s) := by
  rw [pass1Direntry]
  rcases h with ⟨hfree, hfirst⟩ | ⟨hused, hin, hfirst, hmem, hgood⟩
  · rw [if_pos hfree, if_neg (not_not.2 hfirst)]
  · have hfix : fixName path index sfd s = (sfd, false, s) := if_neg hfirst
    have hnull : sfd.checknullName = (sfd, false) := by
      rw [Direntry.checknullName]
      simp only [checknullstring_eq_self hmem]
    have hbad : sfd.checkbadName = (sfd, false) := by
      rw [Direntry.checkbadName]
      simp only [checkbadstring_eq_self hgood]
    rw [if_neg hused, if_neg (UInt32.not_le.2 hin), hfix]
    dsimp only
    rw [hnull]
    dsimp only
    rw [hbad]
    rfl

/-- When nothing is marked as changed, nothing is. -/
theorem pass1Direntry_unchanged (h : (pass1Direntry nblocks path index sfd s).2.1 = false) :
    pass1Direntry nblocks path index sfd s = (sfd, false, s) := by
  rw [pass1Direntry] at h ⊢
  split_ifs at h ⊢ with hfree hname hout
  · rfl
  · have hnamed : fixName path index sfd s = (sfd, false, s) := by
      by_cases hfirst : first sfd.name = 0
      · simp [fixName, hfirst] at h
      · exact if_neg hfirst
    rw [hnamed] at h ⊢
    dsimp only at h ⊢
    obtain ⟨hnull, hbad⟩ := Bool.or_eq_false_iff.1 h
    have hmem : 0 ∈ sfd.name := by
      by_contra hno
      have hset : (checknullstring sfd.name).2 = true := by rw [checknullstring, if_neg hno]
      exact Bool.false_ne_true (hnull.symm.trans hset)
    have hnull' : sfd.checknullName = (sfd, false) := by
      rw [Direntry.checknullName]
      simp only [checknullstring_eq_self hmem]
    rw [hnull'] at hbad ⊢
    dsimp only at hbad ⊢
    have hbad' : sfd.checkbadName = (sfd, false) := by
      rw [Direntry.checkbadName]
      simp only [checkbadstring_of_false hbad]
    rw [hbad']
    rfl

end Pass1

/-- The loop of `pass1_dir` over the entries, from the entry `index` on. -/
def pass1Direntries (nblocks : UInt32) (path : String) :
    UInt32 → List Direntry → Report → List Direntry × Bool × Report
  | _, [], s => ([], false, s)
  | index, sfd :: direntries, s =>
      let (sfd, changed, s) := pass1Direntry nblocks path index sfd s
      let (direntries, dchanged, s) := pass1Direntries nblocks path (index + 1) direntries s
      (sfd :: direntries, changed || dchanged, s)

/-- Over a whole directory, whatever it holds: pass 1 leaves clean entries, it has marked the
directory as changed if it has changed or reported anything, and a second pass finds nothing. -/
theorem pass1Direntries_settles (nblocks : UInt32) (path : String) (index : UInt32)
    (direntries : List Direntry) (s : Report) :
    let r := pass1Direntries nblocks path index direntries s
    r.1.length = direntries.length ∧ (∀ sfd ∈ r.1, Clean nblocks sfd) ∧
      (r.2.1 = false → r = (direntries, false, s)) ∧
      ∀ path' index' s', pass1Direntries nblocks path' index' r.1 s' = (r.1, false, s') := by
  induction direntries generalizing index s with
  | nil =>
      exact ⟨rfl, fun sfd hsfd => absurd hsfd List.not_mem_nil, fun _ => rfl, fun _ _ _ => rfl⟩
  | cons sfd direntries ih =>
      have hclean : Clean nblocks (pass1Direntry nblocks path index sfd s).1 := clean_pass1Direntry
      have hsame : (pass1Direntry nblocks path index sfd s).2.1 = false → _ :=
        pass1Direntry_unchanged
      rw [pass1Direntries]
      generalize pass1Direntry nblocks path index sfd s = x at *
      obtain ⟨sfd', changed, s'⟩ := x
      obtain ⟨hlen, hall, hrest, hagain⟩ := ih (index + 1) s'
      dsimp only at *
      generalize pass1Direntries nblocks path (index + 1) direntries s' = y at *
      refine ⟨congrArg Nat.succ hlen, List.forall_mem_cons.2 ⟨hclean, hall⟩, fun hno => ?_, ?_⟩
      · obtain ⟨hchanged, hdchanged⟩ := Bool.or_eq_false_iff.1 hno
        have hentry := hsame hchanged
        cases hentry
        rw [hrest hdchanged]
        rfl
      · intro path' index' s''
        rw [pass1Direntries, pass1Direntry_of_clean hclean]
        dsimp only
        rw [hagain]
        rfl

/-- The entry that pass 1 leaves, for pass 2. -/
def entry (nblocks : UInt32) (sfd : Direntry) (h : Clean nblocks sfd) : Entry :=
  { sfd with terminated := h.terminated }

/-! ## The order of the entries -/

/-- `dirsortfunc`, for the entries of `d`. -/
def dirsortfunc (d : Nat → Entry) (a b : Nat) : Int :=
  let ad := d a
  let bd := d b
  if ad.ino = 0 ∧ bd.ino = 0 then 0
  else if ad.ino = 0 then 1
  else if bd.ino = 0 then -1
  else strcmp ad.name bd.name

/-- `sfsdir_sort`: the vector. -/
def sfsdirSort (d : Nat → Entry) (nd : Nat) : Except Libc.Qsort.Abort (Nat → Nat) :=
  qsort (dirsortfunc d) (fun i => i) 0 nd

section Order

variable {d : Nat → Entry} {a b nd : Nat}

/-- The name of an entry. -/
abbrev Entry.string (e : Entry) : List UInt8 := Direntries.string e.name

theorem dirsortfunc_nonpos_iff : dirsortfunc d a b ≤ 0 ↔
    (d b).ino = 0 ∨ ((d a).ino ≠ 0 ∧ (d b).ino ≠ 0 ∧ (d a).string ≤ (d b).string) := by
  rw [dirsortfunc]
  by_cases ha : (d a).ino = 0
  · by_cases hb : (d b).ino = 0
    · rw [if_pos ⟨ha, hb⟩]
      exact iff_of_true (Int.le_refl 0) (.inl hb)
    · rw [if_neg fun h => hb h.2, if_pos ha]
      exact iff_of_false (by decide) (not_or.2 ⟨hb, fun h => h.1 ha⟩)
  · by_cases hb : (d b).ino = 0
    · rw [if_neg fun h => ha h.1, if_neg ha, if_pos hb]
      exact iff_of_true (by decide) (.inl hb)
    · rw [if_neg fun h => ha h.1, if_neg ha, if_neg hb,
        strcmp_nonpos_iff (d a).terminated (d b).terminated]
      exact ⟨fun h => .inr ⟨ha, hb, h⟩, fun h => (h.resolve_left hb).2.2⟩

theorem comparison_dirsortfunc (d : Nat → Entry) : Comparison (dirsortfunc d) where
  refl := fun a => by
    rw [dirsortfunc_nonpos_iff]
    by_cases ha : (d a).ino = 0
    · exact .inl ha
    · exact .inr ⟨ha, ha, List.le_refl _⟩
  trans := fun a b c hab hbc => by
    rw [dirsortfunc_nonpos_iff] at hab hbc ⊢
    rcases hbc with hc | ⟨hb, hc, hle⟩
    · exact .inl hc
    · obtain ⟨ha, -, hle'⟩ := hab.resolve_left hb
      exact .inr ⟨ha, hc, List.le_trans hle' hle⟩
  flip := fun a b h => by
    rw [dirsortfunc_nonpos_iff]
    by_cases ha : (d a).ino = 0
    · exact .inl ha
    · by_cases hb : (d b).ino = 0
      · rw [dirsortfunc, if_neg fun h => ha h.1, if_neg ha, if_pos hb] at h
        exact absurd h (by decide)
      · rw [dirsortfunc, if_neg fun h => ha h.1, if_neg ha, if_neg hb] at h
        have hflip := strcmp_flip (d a).name (d b).name
        refine .inr ⟨hb, ha, (strcmp_nonpos_iff (d b).terminated (d a).terminated).1 ?_⟩
        omega

/-- A vector that brings the entries from 0 to `nd` into order. -/
structure SortVector (d : Nat → Entry) (nd : Nat) (v : Nat → Nat) : Prop where
  lt : ∀ i, i < nd → v i < nd
  injective : ∀ i j, v i = v j → i = j
  surjective : ∀ k, k < nd → ∃ i, i < nd ∧ v i = k
  sorted : ∀ i j, i < j → j < nd → dirsortfunc d (v i) (v j) ≤ 0

/-- `sfsdir_sort` makes one. -/
theorem sfsdirSort_spec (d : Nat → Entry) (nd : Nat) :
    ∃ v, sfsdirSort d nd = .ok v ∧ SortVector d nd v := by
  obtain ⟨v, hrun, hshuffle, hsorted⟩ := qsort_sorts (comparison_dirsortfunc d) (fun i => i) 0 nd
  rw [Nat.zero_add] at hshuffle hsorted
  refine ⟨v, hrun, ?_, ?_, ?_, fun i j hij hj => hsorted i j (Nat.zero_le i) hij hj⟩
  · exact fun i hi => hshuffle.all (P := fun k => k < nd) (fun k _ hk => hk) i (Nat.zero_le i) hi
  · obtain ⟨σ, -, rfl⟩ := hshuffle
    exact fun i j h => σ.injective h
  · intro k hk
    obtain ⟨σ, hσ, rfl⟩ := hshuffle
    refine ⟨σ.symm k, ?_, σ.apply_symm_apply k⟩
    by_contra hout
    have hfix := hσ (σ.symm k) (.inr (Nat.not_lt.1 hout))
    rw [σ.apply_symm_apply] at hfix
    omega

/-- Entries with one name stand side by side. -/
theorem SortVector.between {v : Nat → Nat} (h : SortVector d nd v) {i j k : Nat} (hij : i < j)
    (hjk : j ≤ k) (hk : k < nd) (hk₀ : (d (v k)).ino ≠ 0)
    (hname : (d (v i)).string = (d (v k)).string) :
    (d (v j)).ino ≠ 0 ∧ (d (v j)).string = (d (v i)).string := by
  rcases Nat.eq_or_lt_of_le hjk with rfl | hlt
  · exact ⟨hk₀, hname.symm⟩
  · have hle₁ := dirsortfunc_nonpos_iff.1 (h.sorted i j hij (Nat.lt_trans hlt hk))
    have hle₂ := dirsortfunc_nonpos_iff.1 (h.sorted j k hlt hk)
    obtain ⟨hj₀, -, hjk'⟩ := hle₂.resolve_left hk₀
    obtain ⟨-, -, hij'⟩ := hle₁.resolve_left hj₀
    refine ⟨hj₀, List.le_antisymm ?_ hij'⟩
    rw [hname]
    exact hjk'

end Order

end Os161.Sfsck.Direntries
