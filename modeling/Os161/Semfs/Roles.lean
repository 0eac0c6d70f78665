import Os161.Semfs.References

set_option autoImplicit false

/-!
# What a thread does with a semaphore

A thread that has a pointer to a `struct semfs_sem` has it in some role: it makes the semaphore,
removes it, reclaims its vnode or uses it. `Holds` is what such a thread knows. Threads that make or
remove a semaphore have `semfs_dirlock`, a thread that reclaims has `semfs_tablelock`, and a user has
a reference to the vnode; so a step of one thread takes nothing away from what the others know.
-/

namespace Os161.Semfs.Objects

open Os161.Lib.Monitor

variable {τ : Type}

/-- The memory at `id` is or was a semaphore. -/
def Fs.born (x : Fs τ) (id : SemId) : Bool := (x.sem id).isSome

/-- `sems_linked`. -/
def Fs.linked (x : Fs τ) (id : SemId) : Bool := (x.sem id).any (·.linked)

/-- `sems_hasvnode`. -/
def Fs.has (x : Fs τ) (id : SemId) : Bool := (x.sem id).any (·.hasvnode)

/-- Roles of a thread that has a pointer to a semaphore. -/
inductive Role where
  /-- It has made it. -/
  | fresh
  /-- It has put it into the table. -/
  | early (n : Nat)
  /-- It has a reference to its vnode. -/
  | user (v : VnId)
  /-- It could not make all of it. -/
  | lost
  /-- It is about to unlink it. -/
  | entry (n : Nat)
  /-- It has unlinked it. -/
  | unlinked
  /-- It has unlinked it and seen no vnode. -/
  | orphan
  /-- It is about to take it from the table. -/
  | clearing (n : Nat)
  /-- It has taken it from the table. -/
  | gone
  /-- It has taken its vnode away. -/
  | loaded (v : VnId)
  deriving DecidableEq

/-- The role of a creator in `semfs_getvnode`. -/
def Getvnode.role (n : Nat) : Getvnode → Role
  | .ok v => .user v
  | _ => .early n

def Point.role : Point → Option (SemId × Role)
  | .creat _ _ (.insertEnter _ id) | .creat _ _ (.insert _ id) => some (id, .fresh)
  | .creat _ _ (.inserted _ id n) | .creat _ _ (.dirent _ id n) | .creat _ _ (.undir _ id n)
  | .creat _ _ (.uninsertEnter id n) | .creat _ _ (.uninsert id n) => some (id, .early n)
  | .creat _ _ (.uninserted id) | .creat _ _ (.uncreate id) => some (id, .lost)
  | .creat _ _ (.link _ id v) => some (id, .user v)
  | .getvnode (.created _ _ _ id) n p => some (id, p.role n)
  | .getsem (.remove _ _) n (.got id) => some (id, .entry n)
  | .getsem (.use v) _ (.got id) => some (id, .user v)
  | .remove _ (.lock _ n id) | .remove _ (.unlink _ n id) => some (id, .entry n)
  | .remove _ (.test _ _ id) | .remove _ (.unlock _ id) => some (id, .unlinked)
  | .remove _ (.clearEnter _ _ id) => some (id, .orphan)
  | .remove _ (.clear _ n id) => some (id, .clearing n)
  | .remove _ (.cleared _ id) | .remove _ (.free _ id) | .remove _ (.destroy _ id) =>
      some (id, .gone)
  | .use v id _ => some (id, .user v)
  | .reclaim v (.linked id) => some (id, .loaded v)
  | .reclaim _ (.destroy id) => some (id, .gone)
  | _ => none

/-- A semaphore in no place, which only one thread knows. -/
structure Unplaced (x : Fs τ) (id : SemId) : Prop where
  born : x.born id = true
  linked : x.linked id = false
  has : x.has id = false
  destroyed : x.destroyed id = []
  not_at : ∀ n, ¬ x.At n id

/-- What a thread knows in its role. -/
def Holds (x : Fs τ) (t : τ) (id : SemId) : Role → Prop
  | .fresh => Unplaced x id ∧ x.opened id = false ∧ x.removed id = []
  | .early n => x.At n id ∧ x.linked id = false ∧ x.has id = false ∧ x.opened id = false
  | .user v => ∃ n, x.At n id ∧ x.Semnum v n
  | .lost => Unplaced x id ∧ x.opened id = false ∧ (x.removed id = [] ∨ x.removed id = [t])
  | .entry n => x.At n id ∧ x.linked id = true
  | .unlinked => x.linked id = false
  | .orphan => x.linked id = false ∧ x.has id = false
  | .clearing n => x.At n id ∧ x.linked id = false ∧ x.has id = false
  | .gone => Unplaced x id ∧ x.removed id = [t]
  | .loaded v => ∃ n, x.Semnum v n ∧ x.At n id ∧ x.has id = false ∧ x.opened id = true

/-- A thread in one of these roles has `semfs_dirlock`. -/
def Role.dir : Role → Bool
  | .fresh | .early _ | .lost | .entry _ | .unlinked | .orphan | .clearing _ => true
  | _ => false

/-- A thread in one of these roles has `semfs_tablelock`. -/
def Role.table : Role → Bool
  | .clearing _ | .loaded _ => true
  | _ => false

section Locks

variable {p : Point} {id : SemId} {r : Role}

theorem dir_of_role (h : p.role = some (id, r)) (hr : r.dir = true) : p.locked .dir = true := by
  unfold Point.role at h
  split at h <;> cases h <;> first | rfl | (simp [Role.dir] at hr; done) | skip
  -- a creator in `semfs_getvnode`
  rename_i p
  cases p <;> rfl

theorem table_of_role (h : p.role = some (id, r)) (hr : r.table = true) :
    p.locked .table = true := by
  unfold Point.role at h
  split at h <;> cases h <;> first | rfl | (simp [Role.table] at hr; done) | skip
  rename_i p
  cases p <;> simp [Getvnode.role, Role.table] at hr

end Locks

/-! ## The table of semaphores -/

/-- The table, the flags, and what has been done to the semaphores. -/
structure Table (x : Fs τ) : Prop where
  inj : ∀ n m id, x.At n id → x.At m id → n = m
  live : ∀ n id, x.At n id → x.born id = true ∧ x.removed id = [] ∧ x.destroyed id = []
  has_iff : ∀ id, x.has id = true ↔ ∃ n v, x.At n id ∧ x.IsVn v n
  number : ∀ v n, x.IsVn v n → n ≠ rootdir → ∃ id, x.At n id
  opened : ∀ id, x.has id = true → x.opened id = true
  unborn : ∀ id, x.sem id = none →
    x.removed id = [] ∧ x.destroyed id = [] ∧ x.opened id = false
  size : x.sems.length ≤ rootdir
  once : ∀ id, (x.removed id).length ≤ 1 ∧ (x.destroyed id).length ≤ 1

theorem table_init : Table (semfsCreate τ) where
  inj _ _ _ h := by simp [Fs.At, semfsCreate] at h
  live _ _ h := by simp [Fs.At, semfsCreate] at h
  has_iff _ := by simp [Fs.At, Fs.has, semfsCreate]
  number _ _ h := by simp [Fs.IsVn, semfsCreate] at h
  opened _ h := by simp [Fs.has, semfsCreate] at h
  unborn _ _ := ⟨rfl, rfl, rfl⟩
  size := Nat.zero_le _
  once _ := ⟨Nat.zero_le 1, Nat.zero_le 1⟩

variable {x x' : Fs τ} {t u : τ} {id id' : SemId} {r : Role} {n m : Nat} {v : VnId}

theorem Fs.At.unique (h : x.At n id) (h' : x.At n id') : id = id' := by
  unfold Fs.At at h h'
  rw [h] at h'
  simpa using h'

theorem Table.born (h : Table x) (hat : x.At n id) : x.born id = true := (h.live n id hat).1

theorem Table.ne_rootdir (h : Table x) (hat : x.At n id) : n ≠ rootdir := by
  have hlen := (List.getElem?_eq_some_iff.1 hat).1
  have := h.size
  omega

/-- A semaphore is the same as before. -/
structure SameSem (x x' : Fs τ) (id : SemId) : Prop where
  at_iff : ∀ n, x'.At n id ↔ x.At n id
  sem : x'.sem id = x.sem id
  opened : x'.opened id = x.opened id
  removed : x'.removed id = x.removed id
  destroyed : x'.destroyed id = x.destroyed id

theorem SameSem.born (h : SameSem x x' id) : x'.born id = x.born id := by
  unfold Fs.born
  rw [h.sem]

theorem SameSem.linked (h : SameSem x x' id) : x'.linked id = x.linked id := by
  unfold Fs.linked
  rw [h.sem]

theorem SameSem.has (h : SameSem x x' id) : x'.has id = x.has id := by
  unfold Fs.has
  rw [h.sem]

theorem SameSem.unplaced (h : SameSem x x' id) (hu : Unplaced x id) : Unplaced x' id where
  born := h.born.trans hu.born
  linked := h.linked.trans hu.linked
  has := h.has.trans hu.has
  destroyed := h.destroyed.trans hu.destroyed
  not_at n hn := hu.not_at n ((h.at_iff n).1 hn)

/-- `semv_semnum` never changes. -/
def Numbered (x x' : Fs τ) : Prop := ∀ v n, x.Semnum v n → x'.Semnum v n

theorem Holds.same (h : Holds x t id r) (hs : SameSem x x' id) (hn : Numbered x x') :
    Holds x' t id r := by
  cases r <;>
    simp only [Holds, hs.at_iff, hs.linked, hs.has, hs.opened, hs.removed] at h ⊢
  case fresh => exact ⟨hs.unplaced h.1, h.2⟩
  case lost => exact ⟨hs.unplaced h.1, h.2⟩
  case gone => exact ⟨hs.unplaced h.1, h.2⟩
  case user v =>
    obtain ⟨n, hat, hv⟩ := h
    exact ⟨n, hat, hn v n hv⟩
  case loaded v =>
    obtain ⟨n, hv, h⟩ := h
    exact ⟨n, hn v n hv, h⟩
  all_goals exact h

/-- All semaphores and the numbers of the vnodes are the same as before. -/
structure SameTable (x x' : Fs τ) : Prop where
  sems : x'.sems = x.sems
  sem : x'.sem = x.sem
  opened : x'.opened = x.opened
  removed : x'.removed = x.removed
  destroyed : x'.destroyed = x.destroyed
  vnodes : x'.vnodes = x.vnodes
  semnum : ∀ v n, x'.Semnum v n ↔ x.Semnum v n

theorem SameTable.sameSem (h : SameTable x x') (id : SemId) : SameSem x x' id where
  at_iff n := by
    unfold Fs.At
    rw [h.sems]
  sem := congrFun h.sem id
  opened := congrFun h.opened id
  removed := congrFun h.removed id
  destroyed := congrFun h.destroyed id

theorem SameTable.numbered (h : SameTable x x') : Numbered x x' := fun v n => (h.semnum v n).2

theorem Table.same (h : Table x) (hx : SameTable x x') : Table x' := by
  have hsem := hx.sameSem
  have hisVn : ∀ v n, x'.IsVn v n ↔ x.IsVn v n := fun v n => by
    unfold Fs.IsVn
    rw [hx.vnodes, hx.semnum]
  refine ⟨fun n m id hn hm => ?_, fun n id hn => ?_, fun id => ?_, fun v n hv hne => ?_,
    fun id => ?_, fun id => ?_, ?_, fun id => ?_⟩
  · exact h.inj n m id (((hsem id).at_iff n).1 hn) (((hsem id).at_iff m).1 hm)
  · rw [(hsem id).born, hx.removed, hx.destroyed]
    exact h.live n id (((hsem id).at_iff n).1 hn)
  · simp only [(hsem id).has, (hsem id).at_iff, hisVn]
    exact h.has_iff id
  · obtain ⟨id, hid⟩ := h.number v n ((hisVn v n).1 hv) hne
    exact ⟨id, ((hsem id).at_iff n).2 hid⟩
  · rw [(hsem id).has, hx.opened]
    exact h.opened id
  · rw [hx.sem, hx.removed, hx.destroyed, hx.opened]
    exact h.unborn id
  · rw [hx.sems]
    exact h.size
  · rw [hx.removed, hx.destroyed]
    exact h.once id

theorem sameTable_setRefcount {y : Fs τ} (hy : SameTable x y) (v : VnId) (k : Nat) :
    SameTable x (y.setRefcount v k) :=
  ⟨hy.sems, hy.sem, hy.opened, hy.removed, hy.destroyed, hy.vnodes, fun w n =>
    (semnum_setRefcount w n k).trans (hy.semnum w n)⟩

theorem sameTable_hold (t : τ) (v : VnId) : SameTable x (x.hold t v) :=
  ⟨rfl, rfl, rfl, rfl, rfl, rfl, fun _ _ => Iff.rfl⟩

theorem sameTable_drop [DecidableEq τ] (t : τ) (v : VnId) : SameTable x (x.drop t v) :=
  ⟨rfl, rfl, rfl, rfl, rfl, rfl, fun _ _ => Iff.rfl⟩

theorem sameTable_take (t : τ) (v : VnId) : SameTable x (x.take t v) :=
  ⟨rfl, rfl, rfl, rfl, rfl, rfl, fun _ _ => Iff.rfl⟩

theorem sameTable_give [DecidableEq τ] (t : τ) (v : VnId) : SameTable x (x.give t v) :=
  ⟨rfl, rfl, rfl, rfl, rfl, rfl, fun _ _ => Iff.rfl⟩

theorem sameTable_copy (v : VnId) : SameTable x (x.copy v) :=
  ⟨rfl, rfl, rfl, rfl, rfl, rfl, fun _ _ => Iff.rfl⟩

/-! ## Operations on the table -/

theorem sem_update_of_ne {f : SemId → Option Sem} {o : Option Sem} (hne : id' ≠ id) :
    Function.update f id o id' = f id' := Function.update_of_ne hne _ _

theorem create_same (hne : id' ≠ id) : SameSem x (x.create id) id' where
  at_iff _ := Iff.rfl
  sem := sem_update_of_ne hne
  opened := rfl
  removed := rfl
  destroyed := rfl

theorem not_at_of_unborn (h : Table x) (hid : x.sem id = none) (n : Nat) : ¬ x.At n id := by
  intro hat
  have hborn := h.born hat
  simp [Fs.born, hid] at hborn

theorem Table.create (h : Table x) (hid : x.sem id = none) : Table (x.create id) where
  inj := h.inj
  live n id' hat := by
    by_cases hne : id' = id
    · subst hne
      exact absurd hat (not_at_of_unborn h hid n)
    · rw [(create_same hne).born]
      exact h.live n id' hat
  has_iff id' := by
    by_cases hne : id' = id
    · subst hne
      have hnot : ∀ n v, ¬ (x.At n id' ∧ x.IsVn v n) := fun n v hat =>
        not_at_of_unborn h hid n hat.1
      have hhas : (x.create id').has id' = false := by simp [Fs.has, Fs.create]
      rw [hhas]
      exact ⟨nofun, fun ⟨n, v, hat⟩ => absurd hat (hnot n v)⟩
    · rw [(create_same hne).has]
      exact h.has_iff id'
  number := h.number
  opened id' hhas := by
    by_cases hne : id' = id
    · subst hne
      simp [Fs.has, Fs.create] at hhas
    · rw [(create_same hne).has] at hhas
      exact h.opened id' hhas
  unborn id' hnone := by
    by_cases hne : id' = id
    · subst hne
      simp [Fs.create] at hnone
    · rw [(create_same hne).sem] at hnone
      exact h.unborn id' hnone
  size := h.size
  once := h.once

theorem Holds.create (h : Holds x u id' r) (htab : Table x) (hid : x.sem id = none) :
    Holds (x.create id) u id' r := by
  by_cases hne : id' = id
  · subst hne
    have hnot := not_at_of_unborn htab hid
    have hunborn : ¬ Unplaced x id' := fun hu => by simpa [Fs.born, hid] using hu.born
    cases r with
    | fresh | lost | gone => exact absurd h.1 hunborn
    | early n | entry n | clearing n => exact absurd h.1 (hnot n)
    | user v =>
        obtain ⟨n, hat, -⟩ := h
        exact absurd hat (hnot n)
    | loaded v =>
        obtain ⟨n, -, hat, -⟩ := h
        exact absurd hat (hnot n)
    | unlinked => simp [Holds, Fs.linked, Fs.create]
    | orphan => simp [Holds, Fs.linked, Fs.has, Fs.create]
  · exact h.same (create_same hne) fun _ _ hv => hv

/-! ### `semfs_sem_insert` -/

theorem getElem?_place {α : Type} {l : List (Option α)} {i : Nat} (hi : i ≤ l.length) (a : α)
    (j : Nat) : (place l i a)[j]? = if j = i then some (some a) else l[j]? := by
  unfold place
  split
  · rename_i hlt
    rw [List.getElem?_set]
    by_cases hj : j = i
    · simp [hj, hlt]
    · simp [hj, Ne.symm hj]
  · have hlen : i = l.length := by omega
    subst hlen
    by_cases hj : j = l.length
    · simp [hj]
    · simp only [hj, if_false, List.getElem?_append, List.getElem?_cons]
      split
      · rfl
      · rw [if_neg (by omega), List.getElem?_nil, List.getElem?_eq_none (by omega)]

/-- `semfs_sem_insert` finds a place that is free. -/
theorem free_at_idxOf {l : List (Option SemId)} (id : SemId) :
    l[l.idxOf none]? ≠ some (some id) := by
  intro hget
  obtain ⟨hlt, hget⟩ := List.getElem?_eq_some_iff.1 hget
  rw [List.getElem_idxOf hlt] at hget
  cases hget

theorem at_insert (m : Nat) (id' : SemId) :
    (x.insert (x.sems.idxOf none) id).At m id' ↔
      x.At m id' ∨ m = x.sems.idxOf none ∧ id' = id := by
  unfold Fs.At Fs.insert
  simp only [getElem?_place List.idxOf_le_length]
  by_cases hm : m = x.sems.idxOf none
  · subst hm
    have hfree := free_at_idxOf (l := x.sems) id'
    simp [hfree, eq_comm]
  · simp [hm]

theorem insert_same (hne : id' ≠ id) : SameSem x (x.insert (x.sems.idxOf none) id) id' where
  at_iff n := by simp [at_insert, hne]
  sem := rfl
  opened := rfl
  removed := rfl
  destroyed := rfl

theorem Table.insert (h : Table x) (hid : Unplaced x id) (hrem : x.removed id = [])
    (hsize : x.sems.length ≠ rootdir) : Table (x.insert (x.sems.idxOf none) id) where
  inj n m id' hn hm := by
    rw [at_insert] at hn hm
    rcases hn with hn | ⟨rfl, rfl⟩ <;> rcases hm with hm | ⟨rfl, he⟩
    · exact h.inj n m id' hn hm
    · subst he
      exact absurd hn (hid.not_at n)
    · exact absurd hm (hid.not_at m)
    · rfl
  live n id' hn := by
    rcases at_insert n id' |>.1 hn with hn | ⟨rfl, rfl⟩
    · exact h.live n id' hn
    · exact ⟨hid.born, hrem, hid.destroyed⟩
  has_iff id' := by
    have hold := h.has_iff id'
    refine ⟨fun hhas => ?_, fun ⟨n, v, hn, hv⟩ => ?_⟩
    · obtain ⟨n, v, hn, hv⟩ := hold.1 hhas
      exact ⟨n, v, (at_insert n id').2 (.inl hn), hv⟩
    · rcases (at_insert n id').1 hn with hn | ⟨rfl, rfl⟩
      · exact hold.2 ⟨n, v, hn, hv⟩
      · -- no vnode has the number of a free place
        have hroot : x.sems.idxOf none ≠ rootdir := by
          have hle := List.idxOf_le_length (a := none) (l := x.sems)
          have := h.size
          omega
        obtain ⟨id'', hat⟩ := h.number v _ hv hroot
        exact absurd hat (free_at_idxOf id'')
  number v n hv hne := by
    obtain ⟨id', hat⟩ := h.number v n hv hne
    exact ⟨id', (at_insert n id').2 (.inl hat)⟩
  opened := h.opened
  unborn := h.unborn
  size := by
    have := h.size
    simp only [Fs.insert, place]
    split
    · simpa using this
    · simp only [List.length_append, List.length_singleton]
      omega
  once := h.once

theorem Holds.insert (h : Holds x u id' r) (hid : Unplaced x id) (hrem : x.removed id = [])
    (hdir : r.dir = false) : Holds (x.insert (x.sems.idxOf none) id) u id' r := by
  by_cases hne : id' = id
  · subst hne
    cases r with
    | gone =>
        obtain ⟨-, hremoved⟩ := h
        rw [hrem] at hremoved
        cases hremoved
    | user v =>
        obtain ⟨n, hat, -⟩ := h
        exact absurd hat (hid.not_at n)
    | loaded v =>
        obtain ⟨n, -, hat, -⟩ := h
        exact absurd hat (hid.not_at n)
    | _ => cases hdir
  · exact h.same (insert_same hne) fun _ _ hv => hv

/-! ### `semfs_semarray_set` -/

theorem at_remove (m : Nat) (id' : SemId) :
    (x.remove t n id).At m id' ↔ x.At m id' ∧ m ≠ n := by
  unfold Fs.At Fs.remove
  simp only [List.getElem?_set]
  by_cases hm : n = m
  · simp [hm]
  · simp [hm, Ne.symm hm]

theorem remove_same (hat : x.At n id) (hne : id' ≠ id) :
    SameSem x (x.remove t n id) id' where
  at_iff m := by
    rw [at_remove, and_iff_left_iff_imp]
    rintro hm rfl
    exact hne (hm.unique hat)
  sem := rfl
  opened := rfl
  removed := Function.update_of_ne hne _ _
  destroyed := rfl

theorem not_at_remove (h : Table x) (hat : x.At n id) (m : Nat) :
    ¬ (x.remove t n id).At m id := by
  rw [at_remove]
  rintro ⟨hm, hne⟩
  exact hne (h.inj m n id hm hat)

theorem Table.remove (h : Table x) (hat : x.At n id) (hhas : x.has id = false) :
    Table (x.remove t n id) where
  inj k m id' hk hm := h.inj k m id' ((at_remove k id').1 hk).1 ((at_remove m id').1 hm).1
  live m id' hm := by
    have hold := h.live m id' ((at_remove m id').1 hm).1
    have hne : id' ≠ id := by
      rintro rfl
      exact not_at_remove h hat m hm
    rw [(remove_same hat hne).removed]
    exact hold
  has_iff id' := by
    have hold := h.has_iff id'
    refine ⟨fun hhas' => ?_, fun ⟨m, v, hm, hv⟩ => hold.2 ⟨m, v, ((at_remove m id').1 hm).1, hv⟩⟩
    obtain ⟨m, v, hm, hv⟩ := hold.1 hhas'
    refine ⟨m, v, (at_remove m id').2 ⟨hm, ?_⟩, hv⟩
    rintro rfl
    rw [hm.unique hat] at hhas'
    exact absurd (hhas.symm.trans hhas') (by simp)
  number v m hv hne := by
    obtain ⟨id', hm⟩ := h.number v m hv hne
    refine ⟨id', (at_remove m id').2 ⟨hm, ?_⟩⟩
    -- the semaphore has no vnode
    rintro rfl
    have hhas' := (h.has_iff id').2 ⟨m, v, hm, hv⟩
    rw [hm.unique hat] at hhas'
    exact absurd (hhas.symm.trans hhas') (by simp)
  opened := h.opened
  unborn id' hnone := by
    have hne : id' ≠ id := by
      rintro rfl
      exact not_at_of_unborn h hnone n hat
    rw [(remove_same hat hne).removed]
    exact h.unborn id' hnone
  size := by
    have := h.size
    simpa [Fs.remove] using this
  once id' := by
    refine ⟨?_, (h.once id').2⟩
    by_cases hne : id' = id
    · subst hne
      simp [Fs.remove, (h.live n id' hat).2.1]
    · rw [(remove_same hat hne).removed]
      exact (h.once id').1

/-- A semaphore that has been taken from the table. -/
theorem unplaced_remove (h : Table x) (hat : x.At n id) (hlinked : x.linked id = false)
    (hhas : x.has id = false) : Unplaced (x.remove t n id) id where
  born := h.born hat
  linked := hlinked
  has := hhas
  destroyed := (h.live n id hat).2.2
  not_at := not_at_remove h hat

theorem removed_remove (h : Table x) (hat : x.At n id) : (x.remove t n id).removed id = [t] := by
  simp [Fs.remove, (h.live n id hat).2.1]

theorem Holds.remove (h : Holds x u id' r) (htab : Table x) (hat : x.At n id)
    (hlinked : x.linked id = false) (hhas : x.has id = false)
    (hlisted : ∀ v, r = .user v → v ∈ x.vnodes) (htable : r.table = false)
    (hearly : r.dir = false ∨ x.opened id = true) : Holds (x.remove t n id) u id' r := by
  by_cases hne : id' = id
  · subst hne
    cases r with
    | fresh | lost | gone => exact absurd hat (h.1.not_at n)
    | early m =>
        rcases hearly with hdir | hopened
        · cases hdir
        · exact absurd (h.2.2.2.symm.trans hopened) (by simp)
    | user v =>
        obtain ⟨m, hm, hv⟩ := h
        have := (htab.has_iff id').2 ⟨m, v, hm, hlisted v rfl, hv⟩
        exact absurd (hhas.symm.trans this) (by simp)
    | entry m => exact absurd (hlinked.symm.trans h.2) (by simp)
    | unlinked => exact h
    | orphan => exact h
    | clearing | loaded => cases htable
  · exact h.same (remove_same hat hne) fun _ _ hv => hv

/-! ### `semfs_sem_destroy` -/

theorem destroy_same (hne : id' ≠ id) : SameSem x (x.destroy t id) id' where
  at_iff _ := Iff.rfl
  sem := rfl
  opened := rfl
  removed := rfl
  destroyed := Function.update_of_ne hne _ _

theorem Table.destroy (h : Table x) (hid : Unplaced x id) : Table (x.destroy t id) where
  inj := h.inj
  live n id' hat := by
    have hne : id' ≠ id := by
      rintro rfl
      exact hid.not_at n hat
    rw [(destroy_same hne).destroyed]
    exact h.live n id' hat
  has_iff := h.has_iff
  number := h.number
  opened := h.opened
  unborn id' hnone := by
    have hne : id' ≠ id := by
      rintro rfl
      have hborn := hid.born
      have hnone : x.sem id' = none := hnone
      simp [Fs.born, hnone] at hborn
    rw [(destroy_same hne).destroyed]
    exact h.unborn id' hnone
  size := h.size
  once id' := by
    refine ⟨(h.once id').1, ?_⟩
    by_cases hne : id' = id
    · subst hne
      simp [Fs.destroy, hid.destroyed]
    · rw [(destroy_same hne).destroyed]
      exact (h.once id').2

theorem Holds.destroy (h : Holds x u id' r) (hu : u ≠ t) (hid : Unplaced x id)
    (hremoved : x.removed id = [t] ∨ (x.removed id = [] ∧ r.dir = false)) :
    Holds (x.destroy t id) u id' r := by
  by_cases hne : id' = id
  · subst hne
    cases r with
    | fresh =>
        rcases hremoved with he | ⟨-, hdir⟩
        · exact absurd (h.2.2.symm.trans he) (by simp)
        · cases hdir
    | lost =>
        rcases hremoved with he | ⟨-, hdir⟩
        · have hlost := h.2.2
          rw [he] at hlost
          simp [hu.symm] at hlost
        · cases hdir
    | gone =>
        have he := h.2
        rcases hremoved with he' | ⟨he', -⟩ <;> rw [he'] at he <;> simp [hu.symm] at he
    | early n | entry n | clearing n => exact absurd h.1 (hid.not_at n)
    | user v =>
        obtain ⟨n, hat, -⟩ := h
        exact absurd hat (hid.not_at n)
    | loaded v =>
        obtain ⟨n, -, hat, -⟩ := h
        exact absurd hat (hid.not_at n)
    | unlinked => exact h
    | orphan => exact h
  · exact h.same (destroy_same hne) fun _ _ hv => hv

/-! ### `sems_linked` -/

theorem setLinked_same {b : Bool} (hne : id' ≠ id) : SameSem x (x.setLinked id b) id' where
  at_iff _ := Iff.rfl
  sem := sem_update_of_ne hne
  opened := rfl
  removed := rfl
  destroyed := rfl

@[simp] theorem born_setLinked {b : Bool} (id' : SemId) :
    (x.setLinked id b).born id' = x.born id' := by
  by_cases hne : id' = id
  · subst hne
    simp [Fs.born, Fs.setLinked]
  · exact (setLinked_same hne).born

@[simp] theorem has_setLinked {b : Bool} (id' : SemId) :
    (x.setLinked id b).has id' = x.has id' := by
  by_cases hne : id' = id
  · subst hne
    unfold Fs.has Fs.setLinked
    cases x.sem id' <;> simp
  · exact (setLinked_same hne).has

theorem linked_setLinked {b : Bool} (hborn : x.born id = true) :
    (x.setLinked id b).linked id = b := by
  obtain ⟨d, hd⟩ := Option.isSome_iff_exists.1 hborn
  simp [Fs.linked, Fs.setLinked, hd]

theorem unborn_setLinked {b : Bool} (hnone : (x.setLinked id b).sem id' = none) :
    x.sem id' = none := by
  have hborn : (x.setLinked id b).born id' = x.born id' := born_setLinked id'
  simpa [Fs.born, hnone] using hborn

theorem Table.setLinked (h : Table x) (b : Bool) : Table (x.setLinked id b) where
  inj := h.inj
  live n id' hat := by
    rw [born_setLinked]
    exact h.live n id' hat
  has_iff id' := by
    rw [has_setLinked]
    exact h.has_iff id'
  number := h.number
  opened id' := by
    rw [has_setLinked]
    exact h.opened id'
  unborn id' hnone := h.unborn id' (unborn_setLinked hnone)
  size := h.size
  once := h.once

theorem Holds.setLinked {b : Bool} (h : Holds x u id' r) (hat : x.At n id) (hdir : r.dir = false) :
    Holds (x.setLinked id b) u id' r := by
  by_cases hne : id' = id
  · subst hne
    cases r with
    | user v => exact h
    | gone => exact absurd hat (h.1.not_at n)
    | loaded v =>
        simp only [Holds, has_setLinked]
        exact h
    | _ => cases hdir
  · exact h.same (setLinked_same hne) fun _ _ hv => hv

/-! ### `sems_hasvnode` and the vnodes -/

theorem setHasvnode_same {b : Bool} (hne : id' ≠ id) : SameSem x (x.setHasvnode id b) id' where
  at_iff _ := Iff.rfl
  sem := sem_update_of_ne hne
  opened := Function.update_of_ne hne _ _
  removed := rfl
  destroyed := rfl

@[simp] theorem born_setHasvnode {b : Bool} (id' : SemId) :
    (x.setHasvnode id b).born id' = x.born id' := by
  by_cases hne : id' = id
  · subst hne
    simp [Fs.born, Fs.setHasvnode]
  · exact (setHasvnode_same hne).born

@[simp] theorem linked_setHasvnode {b : Bool} (id' : SemId) :
    (x.setHasvnode id b).linked id' = x.linked id' := by
  by_cases hne : id' = id
  · subst hne
    unfold Fs.linked Fs.setHasvnode
    cases x.sem id' <;> simp
  · exact (setHasvnode_same hne).linked

theorem has_setHasvnode {b : Bool} (hborn : x.born id = true) :
    (x.setHasvnode id b).has id = b := by
  obtain ⟨d, hd⟩ := Option.isSome_iff_exists.1 hborn
  simp [Fs.has, Fs.setHasvnode, hd]

theorem opened_setHasvnode {b : Bool} :
    (x.setHasvnode id b).opened id = (x.opened id || b) := by simp [Fs.setHasvnode]

theorem unborn_setHasvnode {b : Bool} (hnone : (x.setHasvnode id b).sem id' = none) :
    x.sem id' = none := by
  have hborn : (x.setHasvnode id b).born id' = x.born id' := born_setHasvnode id'
  simpa [Fs.born, hnone] using hborn

/-- The flag follows the vnode. -/
theorem Table.setHasvnode {b : Bool} {y : Fs τ} (h : Table x) (hat : x.At n id)
    (hsame : ∀ id, SameSem x y id) (hsize : y.sems.length = x.sems.length)
    (hvn : ∀ w m, m ≠ n → (y.IsVn w m ↔ x.IsVn w m)) (hb : b = true ↔ ∃ w, y.IsVn w n) :
    Table (y.setHasvnode id b) := by
  have hat' : ∀ m id', (y.setHasvnode id b).At m id' ↔ x.At m id' := fun m id' =>
    (hsame id').at_iff m
  have hborn := h.born hat
  rw [← (hsame id).born] at hborn
  have hhas : ∀ id', id' ≠ id → (y.setHasvnode id b).has id' = x.has id' := fun id' hne => by
    rw [(setHasvnode_same hne).has, (hsame id').has]
  refine ⟨fun k m id' hk hm => ?_, fun m id' hm => ?_, fun id' => ?_, fun w m hw hm => ?_,
    fun id' hhas' => ?_, fun id' hnone => ?_, ?_, fun id' => ?_⟩
  · exact h.inj k m id' ((hat' k id').1 hk) ((hat' m id').1 hm)
  · rw [born_setHasvnode, (hsame id').born]
    have hremoved : (y.setHasvnode id b).removed id' = x.removed id' := (hsame id').removed
    have hdestroyed : (y.setHasvnode id b).destroyed id' = x.destroyed id' := (hsame id').destroyed
    rw [hremoved, hdestroyed]
    exact h.live m id' ((hat' m id').1 hm)
  · simp only [hat']
    by_cases hne : id' = id
    · subst hne
      rw [has_setHasvnode hborn, hb]
      constructor
      · rintro ⟨w, hw⟩
        exact ⟨n, w, hat, hw⟩
      · rintro ⟨m, w, hm, hw⟩
        rw [h.inj m n id' hm hat] at hw
        exact ⟨w, hw⟩
    · rw [hhas id' hne, h.has_iff id']
      have hm : ∀ m, x.At m id' → m ≠ n := by
        rintro m hm rfl
        exact hne (hm.unique hat)
      constructor
      · rintro ⟨m, w, hat', hw⟩
        exact ⟨m, w, hat', (hvn w m (hm m hat')).2 hw⟩
      · rintro ⟨m, w, hat', hw⟩
        exact ⟨m, w, hat', (hvn w m (hm m hat')).1 hw⟩
  · by_cases hmn : m = n
    · subst hmn
      exact ⟨id, (hat' m id).2 hat⟩
    · obtain ⟨id', hid'⟩ := h.number w m ((hvn w m hmn).1 hw) hm
      exact ⟨id', (hat' m id').2 hid'⟩
  · by_cases hne : id' = id
    · subst hne
      rw [has_setHasvnode hborn] at hhas'
      rw [opened_setHasvnode, hhas', Bool.or_true]
    · rw [hhas id' hne] at hhas'
      rw [(setHasvnode_same hne).opened, (hsame id').opened]
      exact h.opened id' hhas'
  · have hunborn := unborn_setHasvnode hnone
    rw [(hsame id').sem] at hunborn
    have hne : id' ≠ id := by
      rintro rfl
      exact not_at_of_unborn h hunborn n hat
    obtain ⟨hr, hd, ho⟩ := h.unborn id' hunborn
    refine ⟨(hsame id').removed.trans hr, (hsame id').destroyed.trans hd, ?_⟩
    rw [(setHasvnode_same hne).opened, (hsame id').opened]
    exact ho
  · exact hsize.trans_le h.size
  · have hremoved : (y.setHasvnode id b).removed id' = x.removed id' := (hsame id').removed
    have hdestroyed : (y.setHasvnode id b).destroyed id' = x.destroyed id' := (hsame id').destroyed
    rw [hremoved, hdestroyed]
    exact h.once id'

/-- The vnode of the directory has no semaphore. -/
theorem Table.rootVnode {y : Fs τ} (h : Table x) (hsame : ∀ id, SameSem x y id)
    (hsize : y.sems.length = x.sems.length)
    (hvn : ∀ w m, m ≠ rootdir → (y.IsVn w m ↔ x.IsVn w m)) : Table y := by
  refine ⟨fun k m id' hk hm => ?_, fun m id' hm => ?_, fun id' => ?_, fun w m hw hm => ?_,
    fun id' hhas => ?_, fun id' hnone => ?_, hsize.trans_le h.size, fun id' => ?_⟩
  · exact h.inj k m id' (((hsame id').at_iff k).1 hk) (((hsame id').at_iff m).1 hm)
  · rw [(hsame id').born, (hsame id').removed, (hsame id').destroyed]
    exact h.live m id' (((hsame id').at_iff m).1 hm)
  · rw [(hsame id').has, h.has_iff id']
    simp only [(hsame id').at_iff]
    constructor
    · rintro ⟨m, w, hat, hw⟩
      exact ⟨m, w, hat, (hvn w m (h.ne_rootdir hat)).2 hw⟩
    · rintro ⟨m, w, hat, hw⟩
      exact ⟨m, w, hat, (hvn w m (h.ne_rootdir hat)).1 hw⟩
  · obtain ⟨id', hat⟩ := h.number w m ((hvn w m hm).1 hw) hm
    exact ⟨id', ((hsame id').at_iff m).2 hat⟩
  · rw [(hsame id').has] at hhas
    rw [(hsame id').opened]
    exact h.opened id' hhas
  · rw [(hsame id').sem] at hnone
    rw [(hsame id').removed, (hsame id').destroyed, (hsame id').opened]
    exact h.unborn id' hnone
  · rw [(hsame id').removed, (hsame id').destroyed]
    exact h.once id'

theorem addVnode_same (t : τ) (v : VnId) (n : Nat) (id : SemId) :
    SameSem x (x.addVnode t v n) id where
  at_iff _ := Iff.rfl
  sem := rfl
  opened := rfl
  removed := rfl
  destroyed := rfl

theorem semnum_addVnode (hv : x.vn v = none) (w : VnId) (m : Nat) :
    (x.addVnode t v n).Semnum w m ↔ (w = v ∧ m = n) ∨ x.Semnum w m := by
  unfold Fs.Semnum Fs.addVnode
  by_cases hw : w = v
  · subst hw
    simp [hv, eq_comm]
  · simp [hw]

theorem isVn_addVnode (hv : x.vn v = none) (hnew : v ∉ x.vnodes) (w : VnId) (m : Nat) :
    (x.addVnode t v n).IsVn w m ↔ (w = v ∧ m = n) ∨ x.IsVn w m := by
  unfold Fs.IsVn
  rw [semnum_addVnode hv]
  simp only [Fs.addVnode, List.mem_append, List.mem_singleton]
  by_cases hw : w = v
  · subst hw
    have hsem : ¬ x.Semnum w m := by
      rintro ⟨d, hd, -⟩
      rw [hv] at hd
      cases hd
    simp [hnew, hsem]
  · simp [hw]

theorem removeVnode_same (v : VnId) (id : SemId) : SameSem x (x.removeVnode v) id where
  at_iff _ := Iff.rfl
  sem := rfl
  opened := rfl
  removed := rfl
  destroyed := rfl

theorem isVn_removeVnode (honce : x.vnodes.Nodup) (w : VnId) (m : Nat) :
    (x.removeVnode v).IsVn w m ↔ x.IsVn w m ∧ w ≠ v := by
  unfold Fs.IsVn
  simp only [Fs.removeVnode, honce.mem_erase_iff]
  constructor
  · rintro ⟨⟨hne, hw⟩, hn⟩
    exact ⟨⟨hw, hn⟩, hne⟩
  · rintro ⟨⟨hw, hn⟩, hne⟩
    exact ⟨⟨hne, hw⟩, hn⟩

theorem Holds.setHasvnode {b : Bool} (h : Holds x u id' r) (hat : x.At n id)
    (hborn : x.born id = true)
    (hb : (b = true ∧ r.dir = false ∧ r.table = false) ∨ (b = false ∧ x.has id = true)) :
    Holds (x.setHasvnode id b) u id' r := by
  by_cases hne : id' = id
  · subst hne
    cases r with
    | fresh | lost | gone => exact absurd hat (h.1.not_at n)
    | user v => exact h
    | entry m =>
        simp only [Holds, linked_setHasvnode]
        exact h
    | unlinked =>
        simp only [Holds, linked_setHasvnode]
        exact h
    | orphan =>
        rcases hb with ⟨-, hdir, -⟩ | ⟨rfl, -⟩
        · cases hdir
        · simp only [Holds, linked_setHasvnode, has_setHasvnode hborn]
          exact ⟨h.1, trivial⟩
    | early m =>
        rcases hb with ⟨-, hdir, -⟩ | ⟨-, hhas⟩
        · cases hdir
        · exact absurd (h.2.2.1.symm.trans hhas) (by simp)
    | clearing m =>
        rcases hb with ⟨-, hdir, -⟩ | ⟨-, hhas⟩
        · cases hdir
        · exact absurd (h.2.2.symm.trans hhas) (by simp)
    | loaded v =>
        obtain ⟨m, -, -, hhasnot, -⟩ := h
        rcases hb with ⟨-, -, htable⟩ | ⟨-, hhas⟩
        · cases htable
        · exact absurd (hhasnot.symm.trans hhas) (by simp)
  · exact h.same (setHasvnode_same hne) fun _ _ hv => hv

end Os161.Semfs.Objects
