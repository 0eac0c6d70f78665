import Mathlib.Tactic.IntervalCases
import Os161.Sfsck.Direntries

set_option autoImplicit false

/-!
# Duplicate names

The part of `pass2_dir` of `userland/sbin/sfsck/pass2.c` that sorts a directory by name and goes
through the neighbours. The vector is not sorted again, and a pass through it changes the entry
that it leaves, so that every comparison sees two original names. No inode loses its last entry;
but a name that is invented for an entry is not looked for among the names that are there.
-/

namespace Os161.Sfsck.Duplicates

open Os161.Sfsck.Direntries

inductive Abort where
  /-- `assert(d1 != d2)`. -/
  | sameEntry
  /-- The assertion of `qsort`. -/
  | badParts
  deriving DecidableEq, Repr

/-- `direntries` and `dchanged`, with what the checker has reported. -/
structure Dir where
  direntries : Nat → Entry
  dchanged : Bool
  report : Report

/-- `d1->sfd_ino = SFS_NOINO; d1->sfd_name[0] = 0`. -/
def remove (e : Entry) : Entry :=
  { ino := 0
    name := clear e.name
    length_name := length_clear.trans e.length_name
    terminated := zero_mem_clear e.name_ne_nil }

/-- `snprintf(d1->sfd_name, sizeof(d1->sfd_name), ..)`. -/
def rename (e : Entry) (text : List UInt8) : Entry :=
  { e with
    name := snprintf e.name text
    length_name := (length_snprintf e.name_ne_nil).trans e.length_name
    terminated := zero_mem_snprintf }

/-- Two entries with the same name and inode number. -/
def Dir.merge (pathsofar : String) (s : Dir) (v1 : Nat) : Dir :=
  { direntries := Function.update s.direntries v1 (remove (s.direntries v1))
    dchanged := true
    report := s.report.recov (.merged pathsofar (s.direntries v1).string) }

/-- Two entries with the same name and different inode numbers. -/
def Dir.distinguish (pathsofar : String) (s : Dir) (v1 v2 : Nat) : Dir :=
  let d1 := rename (s.direntries v1)
    (fsckName (s.direntries v1).ino s.report.uniquecounter)
  { direntries := Function.update s.direntries v1 d1
    dchanged := true
    report := s.report.uniqueid.recov (.renamed pathsofar (s.direntries v2).string d1.string) }

/-- The body of the loop. -/
def compareEntries (pathsofar : String) (s : Dir) (v1 v2 : Nat) : Except Abort Dir :=
  let d1 := s.direntries v1
  let d2 := s.direntries v2
  if v1 = v2 then .error .sameEntry
  else if d1.ino = 0 ∨ d2.ino = 0 then .ok s
  else if strcmp d1.name d2.name = 0 then
    -- XXX: what if FSCK.n.m already exists?
    if d1.ino = d2.ino then .ok (s.merge pathsofar v1) else .ok (s.distinguish pathsofar v1 v2)
  else .ok s

/-- The loop. -/
def compareAll (pathsofar : String) (nd : Nat) (sortvector : Nat → Nat) (i : Nat) (s : Dir) :
    Except Abort Dir :=
  if i + 1 < nd then
    match compareEntries pathsofar s (sortvector i) (sortvector (i + 1)) with
    | .error p => .error p
    | .ok s => compareAll pathsofar nd sortvector (i + 1) s
  else .ok s
termination_by nd - i

/-- `ndirentries`, for the size of the directory. -/
def ndirentries (size : UInt32) : Nat := (size / 64).toNat

/-- `pass2_dir`: "Sort by name and check for duplicate names." -/
def pass2Duplicates (pathsofar : String) (size : UInt32) (s : Dir) : Except Abort Dir :=
  match sfsdirSort s.direntries (ndirentries size) with
  | .error _ => .error .badParts
  | .ok sortvector => compareAll pathsofar (ndirentries size) sortvector 0 s

/-! ## What happens to an entry -/

section Outcome

variable (d : Nat → Entry) (nd : Nat) (v : Nat → Nat)

/-- The entry at the place `i` of the sorted directory has the name of the next one. -/
def SameName (i : Nat) : Prop :=
  i + 1 < nd ∧ (d (v i)).ino ≠ 0 ∧ (d (v (i + 1))).ino ≠ 0 ∧
    (d (v i)).string = (d (v (i + 1))).string

/-- The two are merged. -/
def Merges (i : Nat) : Prop := SameName d nd v i ∧ (d (v i)).ino = (d (v (i + 1))).ino

/-- The entry gets another name. -/
def Renames (i : Nat) : Prop := SameName d nd v i ∧ (d (v i)).ino ≠ (d (v (i + 1))).ino

instance (i : Nat) : Decidable (SameName d nd v i) :=
  inferInstanceAs (Decidable (_ ∧ _))

instance (i : Nat) : Decidable (Merges d nd v i) :=
  inferInstanceAs (Decidable (_ ∧ _))

instance (i : Nat) : Decidable (Renames d nd v i) :=
  inferInstanceAs (Decidable (_ ∧ _))

/-- How many places before `i` get another name. -/
def renamesBefore : Nat → Nat
  | 0 => 0
  | i + 1 => renamesBefore i + if Renames d nd v i then 1 else 0

/-- The name that the entry at the place `i` gets, when the counter starts with `id`. -/
def newName (id : UInt32) (i : Nat) : List UInt8 :=
  fsckName (d (v i)).ino (id + .ofNat (renamesBefore d nd v i))

/-- What becomes of the entry at the place `i`. -/
def outcome (id : UInt32) (i : Nat) : Entry :=
  if Merges d nd v i then remove (d (v i))
  else if Renames d nd v i then rename (d (v i)) (newName d nd v id i)
  else d (v i)

end Outcome

section Loop

variable {d : Nat → Entry} {nd i : Nat} {v : Nat → Nat} {id : UInt32} {pathsofar : String}
variable {s : Dir}

theorem strcmp_entries (e e' : Entry) : strcmp e.name e'.name = 0 ↔ e.string = e'.string :=
  strcmp_eq_zero_iff e.terminated e'.terminated

theorem not_merges_of_renames (h : Renames d nd v i) : ¬ Merges d nd v i := fun h' => h.2 h'.2

theorem counter_succ_of_not (h : ¬ Renames d nd v i) :
    renamesBefore d nd v (i + 1) = renamesBefore d nd v i := by
  rw [renamesBefore, if_neg h, Nat.add_zero]

theorem counter_succ (h : Renames d nd v i) :
    renamesBefore d nd v (i + 1) = renamesBefore d nd v i + 1 := by
  rw [renamesBefore, if_pos h]

/-- One comparison settles the entry at its place. -/
theorem compareEntries_outcome (pathsofar : String) (hv : SortVector d nd v) (hi : i + 1 < nd)
    (h₁ : s.direntries (v i) = d (v i)) (h₂ : s.direntries (v (i + 1)) = d (v (i + 1)))
    (hid : s.report.uniquecounter = id + .ofNat (renamesBefore d nd v i)) :
    ∃ t, compareEntries pathsofar s (v i) (v (i + 1)) = .ok t ∧
      t.direntries = Function.update s.direntries (v i) (outcome d nd v id i) ∧
      t.report.uniquecounter = id + .ofNat (renamesBefore d nd v (i + 1)) := by
  have hne : v i ≠ v (i + 1) := fun h =>
    absurd (hv.injective _ _ h) (Nat.ne_of_lt (Nat.lt_succ_self i))
  have hkeep : ∀ hsame : ¬ SameName d nd v i,
      s.direntries = Function.update s.direntries (v i) (outcome d nd v id i) ∧
        s.report.uniquecounter = id + .ofNat (renamesBefore d nd v (i + 1)) := by
    intro hsame
    rw [outcome, if_neg fun h => hsame h.1, if_neg fun h => hsame h.1, ← h₁,
      Function.update_eq_self, counter_succ_of_not fun h => hsame h.1]
    exact ⟨rfl, hid⟩
  rw [compareEntries, h₁, h₂, if_neg hne]
  split
  case isTrue hfree =>
    refine ⟨s, rfl, hkeep fun h => ?_⟩
    exact hfree.elim h.2.1 h.2.2.1
  case isFalse hused =>
    obtain ⟨hu₁, hu₂⟩ := not_or.1 hused
    split
    case isTrue heq =>
      rw [strcmp_entries] at heq
      have hsame : SameName d nd v i := ⟨hi, hu₁, hu₂, heq⟩
      split
      case isTrue hino =>
        have hmerges : Merges d nd v i := ⟨hsame, hino⟩
        refine ⟨_, rfl, ?_, ?_⟩
        · rw [outcome, if_pos hmerges, ← h₁]
          rfl
        · rw [counter_succ_of_not fun h => h.2 hino]
          exact hid
      case isFalse hino =>
        have hrenames : Renames d nd v i := ⟨hsame, hino⟩
        refine ⟨_, rfl, ?_, ?_⟩
        · rw [outcome, if_neg (not_merges_of_renames hrenames), if_pos hrenames, newName, ← hid,
            ← h₁]
          rfl
        · show s.report.uniquecounter + 1 = _
          rw [counter_succ hrenames, hid, UInt32.ofNat_add, UInt32.add_assoc]
          rfl
    case isFalse heq =>
      rw [strcmp_entries] at heq
      exact ⟨s, rfl, hkeep fun h => heq h.2.2.2⟩

/-- The loop: the entries before the place `i` are settled, the others are as they were. -/
theorem compareAll_outcome (pathsofar : String) (id : UInt32) (hv : SortVector d nd v) (i : Nat)
    (s : Dir)
    (hdone : ∀ j, j < i → s.direntries (v j) = outcome d nd v id j)
    (hleft : ∀ j, i ≤ j → s.direntries (v j) = d (v j))
    (hid : s.report.uniquecounter = id + .ofNat (renamesBefore d nd v i)) :
    ∃ t, compareAll pathsofar nd v i s = .ok t ∧
      ∀ j, j < nd → t.direntries (v j) = outcome d nd v id j := by
  induction hn : nd - i generalizing i s with
  | zero =>
      have hge : ¬ i + 1 < nd := by omega
      rw [compareAll, if_neg hge]
      exact ⟨s, rfl, fun j hj => hdone j (by omega)⟩
  | succ n ih =>
      rw [compareAll]
      split
      case isTrue hi =>
        obtain ⟨t, hrun, hdir, hid'⟩ := compareEntries_outcome pathsofar hv hi
          (hleft i (Nat.le_refl i)) (hleft (i + 1) (Nat.le_succ i)) hid
        rw [hrun]
        refine ih (i + 1) t (fun j hj => ?_) (fun j hj => ?_) hid' (by omega)
        · rw [hdir]
          rcases Nat.lt_succ_iff_lt_or_eq.1 hj with hj | rfl
          · rw [Function.update_of_ne fun h => Nat.ne_of_lt hj (hv.injective _ _ h)]
            exact hdone j hj
          · exact Function.update_self ..
        · rw [hdir, Function.update_of_ne fun h => by have := hv.injective _ _ h; omega]
          exact hleft j (Nat.le_of_succ_le hj)
      case isFalse hlast =>
        -- the last place has no next one
        refine ⟨s, rfl, fun j hj => ?_⟩
        rcases Nat.lt_or_ge j i with hji | hji
        · exact hdone j hji
        · have hsame : ¬ SameName d nd v j := fun h => by have := h.1; omega
          rw [outcome, if_neg fun h => hsame h.1, if_neg fun h => hsame h.1]
          exact hleft j hji

end Loop

/-! ## The names afterwards -/

/-- No two entries in use have the same name. -/
def NoDuplicates (d : Nat → Entry) (nd : Nat) : Prop :=
  ∀ i j, i < nd → j < nd → (d i).ino ≠ 0 → (d j).ino ≠ 0 → (d i).string = (d j).string → i = j

/-- Every inode that had an entry has one. -/
def Retained (d d' : Nat → Entry) (nd : Nat) : Prop :=
  ∀ i, i < nd → (d i).ino ≠ 0 → ∃ j, j < nd ∧ (d' j).ino = (d i).ino

/-- No entry in use has a name that is invented for another one. -/
def InventedFree (d : Nat → Entry) (nd : Nat) (v : Nat → Nat) (id : UInt32) : Prop :=
  ∀ i, Renames d nd v i → ∀ k, k < nd → (d k).ino ≠ 0 → (d k).string ≠ newName d nd v id i

section Names

variable {d t : Nat → Entry} {nd i j k : Nat} {v : Nat → Nat} {id : UInt32}

theorem outcome_of_not (h : ¬ SameName d nd v i) : outcome d nd v id i = d (v i) := by
  rw [outcome, if_neg fun h' => h h'.1, if_neg fun h' => h h'.1]

theorem outcome_of_renames (h : Renames d nd v i) :
    outcome d nd v id i = rename (d (v i)) (newName d nd v id i) := by
  rw [outcome, if_neg (not_merges_of_renames h), if_pos h]

theorem ino_outcome_of_merges (h : Merges d nd v i) : (outcome d nd v id i).ino = 0 := by
  rw [outcome, if_pos h]
  rfl

theorem ino_outcome (h : ¬ Merges d nd v i) : (outcome d nd v id i).ino = (d (v i)).ino := by
  rw [outcome, if_neg h]
  split
  · rfl
  · rfl

/-- What is in use afterwards was in use, and has another name or the old one. -/
theorem renames_or_kept (h : (outcome d nd v id i).ino ≠ 0) :
    (d (v i)).ino ≠ 0 ∧ (Renames d nd v i ∨ ¬ SameName d nd v i) := by
  have hmerges : ¬ Merges d nd v i := fun h' => h (ino_outcome_of_merges h')
  rw [ino_outcome hmerges] at h
  refine ⟨h, ?_⟩
  by_cases hsame : SameName d nd v i
  · exact .inl ⟨hsame, fun hino => hmerges ⟨hsame, hino⟩⟩
  · exact .inr hsame

theorem string_newName (h : Renames d nd v i) :
    (outcome d nd v id i).string = newName d nd v id i := by
  have hlen : (newName d nd v id i).length < (d (v i)).name.length := by
    rw [(d (v i)).length_name]
    exact Nat.lt_of_le_of_lt (length_fsckName_le _ _) (by decide)
  rw [outcome_of_renames h]
  exact string_snprintf hlen fun c hc => (mem_fsckName c hc).1

theorem renamesBefore_le (d : Nat → Entry) (nd : Nat) (v : Nat → Nat) (i : Nat) :
    renamesBefore d nd v i ≤ i := by
  induction i with
  | zero => exact Nat.le_refl 0
  | succ i ih =>
      rw [renamesBefore]
      split <;> omega

theorem renamesBefore_mono (d : Nat → Entry) (nd : Nat) (v : Nat → Nat) (h : i ≤ j) : renamesBefore d nd v i ≤ renamesBefore d nd v j := by
  induction h with
  | refl => exact Nat.le_refl _
  | step _ ih =>
      rw [renamesBefore]
      exact Nat.le_trans ih (Nat.le_add_right _ _)

/-- The counter does not come round while a directory is looked at. -/
theorem newName_ne (hnd : nd ≤ 2 ^ 32) (hi : Renames d nd v i) (hij : i < j) (hj : j < nd) :
    newName d nd v id i ≠ newName d nd v id j := by
  intro h
  have hid := fsckName_injective h
  have hcount : renamesBefore d nd v i < renamesBefore d nd v j := by
    have hmono := renamesBefore_mono d nd v (Nat.succ_le_of_lt hij)
    rw [counter_succ hi] at hmono
    exact hmono
  have hlt := renamesBefore_le d nd v j
  have heq : UInt32.ofNat (renamesBefore d nd v i) = .ofNat (renamesBefore d nd v j) :=
    (UInt32.add_right_inj id).1 hid
  have hnat := congrArg UInt32.toNat heq
  rw [UInt32.toNat_ofNat_of_lt' (show renamesBefore d nd v i < 2 ^ 32 by omega),
    UInt32.toNat_ofNat_of_lt' (show renamesBefore d nd v j < 2 ^ 32 by omega)] at hnat
  omega

/-- The last entry with a name keeps it. -/
theorem exists_kept (hk : k < nd) (hused : (d (v k)).ino ≠ 0) :
    ∃ j, j < nd ∧ ¬ SameName d nd v j ∧ (d (v j)).ino ≠ 0 ∧
      (d (v j)).string = (d (v k)).string := by
  induction hn : nd - k generalizing k with
  | zero => omega
  | succ n ih =>
      by_cases hsame : SameName d nd v k
      · obtain ⟨j, hj, hkept, hino, hname⟩ := ih hsame.1 hsame.2.2.1 (by omega)
        exact ⟨j, hj, hkept, hino, hname.trans hsame.2.2.2.symm⟩
      · exact ⟨k, hk, hsame, hused, rfl⟩

/-- An entry that is merged leaves its inode to the next one. -/
theorem exists_ino (id : UInt32) (hk : k < nd) (hused : (d (v k)).ino ≠ 0) :
    ∃ j, j < nd ∧ (outcome d nd v id j).ino = (d (v k)).ino := by
  induction hn : nd - k generalizing k with
  | zero => omega
  | succ n ih =>
      by_cases hmerges : Merges d nd v k
      · obtain ⟨j, hj, hino⟩ := ih hmerges.1.1 hmerges.1.2.2.1 (by omega)
        exact ⟨j, hj, hino.trans hmerges.2.symm⟩
      · exact ⟨k, hk, ino_outcome hmerges⟩

theorem retained_outcome (hv : SortVector d nd v)
    (ht : ∀ j, j < nd → t (v j) = outcome d nd v id j) : Retained d t nd := by
  intro i hi hused
  obtain ⟨k, hk, rfl⟩ := hv.surjective i hi
  obtain ⟨j, hj, hino⟩ := exists_ino id hk hused
  refine ⟨v j, hv.lt j hj, ?_⟩
  rw [ht j hj]
  exact hino

/-- With a free name for every renamed entry, two places do not get one name. -/
theorem string_ne (hv : SortVector d nd v) (hnd : nd ≤ 2 ^ 32) (hfree : InventedFree d nd v id)
    (hij : i < j) (hj : j < nd) (hi₀ : (outcome d nd v id i).ino ≠ 0) (hj₀ : (outcome d nd v id j).ino ≠ 0) :
    (outcome d nd v id i).string ≠ (outcome d nd v id j).string := by
  have hi : i < nd := Nat.lt_trans hij hj
  intro hname
  obtain ⟨hui, hri | hki⟩ := renames_or_kept hi₀
  · rw [string_newName hri] at hname
    obtain ⟨huj, hrj | hkj⟩ := renames_or_kept hj₀
    · rw [string_newName hrj] at hname
      exact newName_ne hnd hri hij hj hname
    · rw [outcome_of_not hkj] at hname
      exact hfree i hri (v j) (hv.lt j hj) huj hname.symm
  · rw [outcome_of_not hki] at hname
    obtain ⟨huj, hrj | hkj⟩ := renames_or_kept hj₀
    · rw [string_newName hrj] at hname
      exact hfree j hrj (v i) (hv.lt i hi) hui hname
    · -- entries with one name stand side by side, and only the last of them keeps it
      rw [outcome_of_not hkj] at hname
      obtain ⟨hused, hnext⟩ := hv.between (Nat.lt_succ_self i) hij hj huj hname
      exact hki ⟨Nat.lt_of_le_of_lt hij hj, hui, hused, hnext.symm⟩

theorem noDuplicates_of_inventedFree (hv : SortVector d nd v)
    (ht : ∀ j, j < nd → t (v j) = outcome d nd v id j) (hnd : nd ≤ 2 ^ 32) (hfree : InventedFree d nd v id) :
    NoDuplicates t nd := by
  intro k l hk hl hk₀ hl₀ hname
  obtain ⟨i, hi, rfl⟩ := hv.surjective k hk
  obtain ⟨j, hj, rfl⟩ := hv.surjective l hl
  rw [ht i hi] at hk₀ hname
  rw [ht j hj] at hl₀ hname
  rcases Nat.lt_trichotomy i j with hlt | rfl | hgt
  · exact absurd hname (string_ne hv hnd hfree hlt hj hk₀ hl₀)
  · rfl
  · exact absurd hname.symm (string_ne hv hnd hfree hgt hi hl₀ hk₀)

theorem inventedFree_of_noDuplicates (hv : SortVector d nd v)
    (ht : ∀ j, j < nd → t (v j) = outcome d nd v id j) (h : NoDuplicates t nd) : InventedFree d nd v id := by
  intro i hri k hk hused hname
  obtain ⟨l, hl, rfl⟩ := hv.surjective k hk
  -- the last entry with the name keeps it
  obtain ⟨j, hj, hkept, hj₀, hj₁⟩ := exists_kept hl hused
  have hi : i < nd := Nat.lt_of_succ_lt hri.1.1
  have hti : (t (v i)).ino ≠ 0 := by
    rw [ht i hi, ino_outcome (not_merges_of_renames hri)]
    exact hri.1.2.1
  have htj : (t (v j)).ino ≠ 0 := by
    rw [ht j hj, outcome_of_not hkept]
    exact hj₀
  have heq : (t (v i)).string = (t (v j)).string := by
    rw [ht i hi, ht j hj, string_newName hri, outcome_of_not hkept, hj₁, hname]
  have hij : i = j := hv.injective _ _ (h _ _ (hv.lt i hi) (hv.lt j hj) hti htj heq)
  rw [hij] at hri
  exact hkept hri.1

end Names

/-- Every inode keeps an entry, and there are no duplicate names afterwards if and only if no
entry has a name that is invented for another one. -/
theorem pass2Duplicates_names (pathsofar : String) (size : UInt32) (s : Dir) :
    ∃ v t, sfsdirSort s.direntries (ndirentries size) = .ok v ∧
      pass2Duplicates pathsofar size s = .ok t ∧
      Retained s.direntries t.direntries (ndirentries size) ∧
      (NoDuplicates t.direntries (ndirentries size) ↔
        InventedFree s.direntries (ndirentries size) v s.report.uniquecounter) := by
  obtain ⟨v, hsort, hv⟩ := sfsdirSort_spec s.direntries (ndirentries size)
  obtain ⟨t, hrun, ht⟩ := compareAll_outcome pathsofar s.report.uniquecounter hv 0 s (fun j hj => absurd hj (Nat.not_lt_zero j))
    (fun j _ => rfl) (UInt32.add_zero _).symm
  have hnd : ndirentries size ≤ 2 ^ 32 := Nat.le_of_lt (UInt32.toNat_lt (size / 64))
  refine ⟨v, t, hsort, ?_, retained_outcome hv ht, inventedFree_of_noDuplicates hv ht,
    noDuplicates_of_inventedFree hv ht hnd⟩
  rw [pass2Duplicates, hsort]
  exact hrun

/-- Two files called `a` and one called `FSCK.5.0`. -/
def threeFiles (k : Nat) : Entry :=
  if k = 0 then
    { ino := 5, name := 97 :: List.replicate 59 0, length_name := rfl, terminated := by decide }
  else if k = 1 then
    { ino := 6, name := 97 :: List.replicate 59 0, length_name := rfl, terminated := by decide }
  else
    { ino := 7
      name := [70, 83, 67, 75, 46, 53, 46, 48] ++ List.replicate 52 0
      length_name := rfl
      terminated := by decide }

/-- The first file becomes a second `FSCK.5.0`. -/
theorem pass2Duplicates_clash :
    (∀ k, k < 3 → Clean 100 (threeFiles k).toDirentry) ∧
      ∃ t, pass2Duplicates "root" 192
          { direntries := threeFiles, dchanged := false, report := ⟨0, 0, []⟩ } = .ok t ∧
        ¬ NoDuplicates t.direntries (ndirentries 192) := by
  refine ⟨?_, ?_⟩
  · intro k hk
    interval_cases k <;> exact .inr (by decide +kernel)
  · have hnames : ((pass2Duplicates "root" 192
        { direntries := threeFiles, dchanged := false, report := ⟨0, 0, []⟩ }).toOption.map
          fun t => ((t.direntries 0).ino, (t.direntries 2).ino,
            (t.direntries 0).string == (t.direntries 2).string)) = some (5, 7, true) := by
      decide +kernel
    cases hrun : pass2Duplicates "root" 192
        { direntries := threeFiles, dchanged := false, report := ⟨0, 0, []⟩ } with
    | error p =>
        rw [hrun] at hnames
        exact nomatch hnames
    | ok t =>
        rw [hrun] at hnames
        obtain ⟨h₀, h₂, hname⟩ := by simpa [Except.toOption] using hnames
        refine ⟨t, rfl, fun h => ?_⟩
        have heq := h 0 2 (by decide) (by decide) (by rw [h₀]; decide) (by rw [h₂]; decide) hname
        exact absurd heq (by decide)

end Os161.Sfsck.Duplicates
