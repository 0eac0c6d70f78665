import Os161.Lib.Runs
import Os161.Semfs.Directory

set_option autoImplicit false

/-!
# Creating a semaphore is all or nothing

`semfs_creat` acquires a semaphore, a place in the table, a directory entry, a place in the directory
and a vnode, and gives back what it has when the next one fails. It does so in every case but one:
when `semfs_direntry_create` fails, `result` is still `0`.
-/

namespace Os161.Semfs.Directory

open Os161.Lib.Calls
open Os161.Lib.Runs

/-! ## Arrays with empty places -/

section Arrays

variable {α : Type} {l l' : List (Option α)} {a b : α} {n m : Nat}

/-- `l'` is `l` with `a` at the place `n`, which was empty or the end. -/
structure Put (l l' : List (Option α)) (n : Nat) (a : α) : Prop where
  old : ∀ b, l[n]? ≠ some (some b)
  lt : n < l'.length
  length : l'.length ≤ l.length + 1
  at_iff : ∀ m b, l'[m]? = some (some b) ↔ (m = n ∧ b = a) ∨ l[m]? = some (some b)

theorem put_set (h : n < l.length) (hempty : ∀ b, l[n]? ≠ some (some b)) :
    Put l (l.set n (some a)) n a where
  old := hempty
  lt := by rwa [List.length_set]
  length := by
    rw [List.length_set]
    exact Nat.le_succ _
  at_iff m b := by
    by_cases hm : n = m
    · subst hm
      rw [List.getElem?_set_self h]
      simp [hempty, eq_comm]
    · rw [List.getElem?_set_ne hm]
      simp [Ne.symm hm]

theorem put_append (a : α) : Put l (l ++ [some a]) l.length a where
  old b := by simp
  lt := by simp
  length := by simp
  at_iff m b := by
    rcases Nat.lt_trichotomy m l.length with hm | rfl | hm
    · rw [List.getElem?_append_left hm]
      simp [Nat.ne_of_lt hm]
    · simp [eq_comm]
    · have hend : l.length + 1 ≤ m := hm
      rw [List.getElem?_eq_none (by simpa using hend), List.getElem?_eq_none (Nat.le_of_lt hm)]
      simp [Nat.ne_of_gt hm]

/-- The first empty place is empty. -/
theorem firstEmpty_empty (l : List (Option α)) (b : α) : l[firstEmpty l]? ≠ some (some b) := by
  intro h
  obtain ⟨hlt, hb⟩ := List.getElem?_eq_some_iff.1 h
  have hnone := List.findIdx_getElem (p := Option.isNone) (w := hlt)
  exact Option.some_ne_none b (hb.symm.trans (Option.isNone_iff_eq_none.1 hnone))

/-- A place is made empty. -/
theorem getElem?_set_none {l : List (Option α)} {n m : Nat} {b : α} :
    (l.set n none)[m]? = some (some b) ↔ m ≠ n ∧ l[m]? = some (some b) := by
  by_cases hm : n = m
  · subst hm
    rw [List.getElem?_set]
    simp
  · rw [List.getElem?_set_ne hm]
    simp [Ne.symm hm]

/-- Taking the element out again. -/
theorem Put.undo (h : Put l l' n a) (m : Nat) (b : α) :
    (l'.set n none)[m]? = some (some b) ↔ l[m]? = some (some b) := by
  rw [getElem?_set_none, h.at_iff]
  constructor
  · rintro ⟨hne, ⟨heq, -⟩ | hold⟩
    · exact absurd heq hne
    · exact hold
  · intro hold
    refine ⟨?_, .inr hold⟩
    rintro rfl
    exact h.old b hold

end Arrays

/-! ## What holds between calls -/

/-- The semaphore with the number `n`. -/
def Fs.At (s : Fs) (n : Nat) (id : SemId) : Prop := s.sems.elems[n]? = some (some id)

/-- The place `i` of the directory has an entry. -/
def Fs.Entry (s : Fs) (i : Nat) (name : Name) (n : Nat) : Prop :=
  s.dents.elems[i]? = some (some (name, n))

/-- The semaphore table and the vnode table. -/
structure Tables (s : Fs) : Prop where
  live : ∀ n id, s.At n id → id < s.brk ∧ ∃ x, s.sem id = some x
  ids : ∀ n m id, s.At n id → s.At m id → n = m
  vnode : ∀ v ∈ s.vnodes.elems, v < s.brk ∧ ∃ d, s.vn v = some d ∧
    (d.semnum = rootdir ∨ ∃ id x, s.At d.semnum id ∧ s.sem id = some x ∧ x.hasvnode = true)
  hasvnode : ∀ n id x, s.At n id → s.sem id = some x → x.hasvnode = true →
    ∃ v ∈ s.vnodes.elems, ∃ d, s.vn v = some d ∧ d.semnum = n
  once : ∀ v ∈ s.vnodes.elems, ∀ w ∈ s.vnodes.elems, ∀ d e, s.vn v = some d → s.vn w = some e →
    d.semnum = e.semnum → v = w
  here : ∀ v d, s.vn v = some d → v ∈ s.vnodes.elems
  nodup : s.vnodes.elems.Nodup
  short : s.sems.elems.length ≤ rootdir

/-- The directory: its entries have different names and different semaphores, which are linked. -/
structure Entries (s : Fs) : Prop where
  linked : ∀ i name n, s.Entry i name n → ∃ id x, s.At n id ∧ s.sem id = some x ∧ x.linked = true
  names : ∀ i j name n m, s.Entry i name n → s.Entry j name m → i = j
  numbers : ∀ i j name name' n, s.Entry i name n → s.Entry j name' n → i = j

/-- The tables and the directory have not changed; memory may have been allocated and freed, and
arrays may have got longer by an empty place. -/
structure Same (s t : Fs) : Prop where
  sems : ∀ n id, t.At n id ↔ s.At n id
  dents : ∀ i name n, t.Entry i name n ↔ s.Entry i name n
  vnodes : t.vnodes.elems = s.vnodes.elems
  sem : ∀ n id, s.At n id → t.sem id = s.sem id
  vn : t.vn = s.vn
  brk : s.brk ≤ t.brk
  short : s.sems.elems.length ≤ rootdir → t.sems.elems.length ≤ rootdir

section Invariant

variable {s t : Fs} {n m : Nat} {id : SemId} {v : VnId} {name : Name}

theorem Same.refl (s : Fs) : Same s s :=
  ⟨fun _ _ => Iff.rfl, fun _ _ _ => Iff.rfl, rfl, fun _ _ _ => rfl, rfl, Nat.le_refl _, id⟩

theorem Tables.same (h : Tables s) (hst : Same s t) : Tables t where
  live n id hn := by
    have hold := (hst.sems n id).1 hn
    obtain ⟨hlt, x, hx⟩ := h.live n id hold
    exact ⟨Nat.lt_of_lt_of_le hlt hst.brk, x, (hst.sem n id hold).trans hx⟩
  ids n m id hn hm := h.ids n m id ((hst.sems n id).1 hn) ((hst.sems m id).1 hm)
  vnode v hv := by
    rw [hst.vnodes] at hv
    obtain ⟨hlt, d, hd, hsem⟩ := h.vnode v hv
    refine ⟨Nat.lt_of_lt_of_le hlt hst.brk, d, by rw [hst.vn, hd], hsem.imp_right ?_⟩
    rintro ⟨id, x, hat, hx, hflag⟩
    exact ⟨id, x, (hst.sems _ id).2 hat, (hst.sem _ id hat).trans hx, hflag⟩
  hasvnode n id x hn hx hflag := by
    have hold := (hst.sems n id).1 hn
    rw [hst.sem n id hold] at hx
    obtain ⟨v, hv, d, hd, hnum⟩ := h.hasvnode n id x hold hx hflag
    exact ⟨v, by rwa [hst.vnodes], d, by rw [hst.vn, hd], hnum⟩
  once v hv w hw d e hd he hnum := by
    rw [hst.vnodes] at hv hw
    rw [hst.vn] at hd he
    exact h.once v hv w hw d e hd he hnum
  here v d hd := by
    rw [hst.vn] at hd
    rw [hst.vnodes]
    exact h.here v d hd
  nodup := by
    rw [hst.vnodes]
    exact h.nodup
  short := hst.short h.short

theorem Entries.same (h : Entries s) (hst : Same s t) : Entries t where
  linked i name n hi := by
    obtain ⟨id, x, hat, hx, hflag⟩ := h.linked i name n ((hst.dents i name n).1 hi)
    exact ⟨id, x, (hst.sems n id).2 hat, (hst.sem n id hat).trans hx, hflag⟩
  names i j name n m hi hj := h.names i j name n m ((hst.dents ..).1 hi) ((hst.dents ..).1 hj)
  numbers i j name name' n hi hj :=
    h.numbers i j name name' n ((hst.dents ..).1 hi) ((hst.dents ..).1 hj)

end Invariant

/-! ## Memory -/

section Memory

variable {ok : Panic → Prop} {s t : Fs}

/-- The state after some calls of `kmalloc`. -/
def Fs.tick (s : Fs) (k : Nat) : Fs := { s with kmallocs := s.kmallocs + k }

theorem same_tick (s : Fs) (k : Nat) : Same s (s.tick k) :=
  ⟨fun _ _ => Iff.rfl, fun _ _ _ => Iff.rfl, rfl, fun _ _ _ => rfl, rfl, Nat.le_refl _, id⟩

theorem gives_kmalloc {P : Bool → Fs → Prop} (h : P (s.memory s.kmallocs) (s.tick 1)) :
    Gives ok kmalloc P s := by
  simp only [kmalloc, gives_bind, gives_get, gives_set, gives_pure]
  exact h

/-- An array grows when it is full, with one call of `kmalloc`. -/
theorem gives_preallocate {num max : Nat} {P : Option Nat → Fs → Prop}
    (hfail : max < num + 1 → s.memory s.kmallocs = false → P none (s.tick 1))
    (hdone : ∀ max', (max < num + 1 → s.memory s.kmallocs = true) →
      P (some max') (s.tick (if max < num + 1 then 1 else 0))) :
    Gives ok (preallocate num max) P s := by
  rw [preallocate, gives_ite]
  refine ⟨fun hfull => ?_, fun hroom => ?_⟩
  · rw [gives_bind]
    refine gives_kmalloc ?_
    rw [gives_ite, gives_pure, gives_pure]
    have hdone' := hdone (if max = 0 then 4 else 2 * max)
    rw [if_pos hfull] at hdone'
    exact ⟨fun h => hdone' fun _ => h, fun h => hfail hfull (by simpa using h)⟩
  · rw [gives_pure]
    have hdone' := hdone max fun h => absurd h hroom
    rw [if_neg hroom] at hdone'
    exact hdone'

/-- A semaphore is made, or one of three calls of `kmalloc` fails. -/
theorem gives_semCreate {P : Option SemId → Fs → Prop}
    (hfail : ∀ k, ¬ (∀ i < 3, s.memory (s.kmallocs + i) = true) → P none (s.tick k))
    (hdone : (∀ i < 3, s.memory (s.kmallocs + i) = true) → P (some s.brk)
      { s.tick 3 with sem := Function.update s.sem s.brk (some ⟨false, false⟩), brk := s.brk + 1 }) :
    Gives ok semCreate P s := by
  rw [semCreate, gives_bind]
  refine gives_kmalloc ?_
  rw [gives_ite]
  refine ⟨fun h₀ => ?_, fun h₀ => ?_⟩
  · rw [gives_bind]
    refine gives_kmalloc ?_
    rw [gives_ite]
    refine ⟨fun h₁ => ?_, fun h₁ => ?_⟩
    · rw [gives_bind]
      refine gives_kmalloc ?_
      rw [gives_ite]
      refine ⟨fun h₂ => ?_, fun h₂ => ?_⟩
      · simp only [gives_bind, gives_get, gives_set, gives_pure]
        refine hdone fun i hi => ?_
        obtain rfl | rfl | rfl : i = 0 ∨ i = 1 ∨ i = 2 := by omega
        · exact h₀
        · exact h₁
        · exact h₂
      · rw [gives_pure]
        exact hfail 3 fun hall => h₂ (hall 2 (by decide))
    · rw [gives_pure]
      exact hfail 2 fun hall => h₁ (hall 1 (by decide))
  · rw [gives_pure]
    exact hfail 1 fun hall => h₀ (hall 0 (by decide))

/-- The semaphore table has no room for another semaphore without `kmalloc`. -/
def Fs.Grows (s : Fs) : Prop :=
  s.sems.elems.length ≤ firstEmpty s.sems.elems ∧ s.sems.max < s.sems.elems.length + 1

instance (s : Fs) : Decidable s.Grows := inferInstanceAs (Decidable (_ ∧ _))

/-- A semaphore gets a number, or nothing happens. -/
theorem gives_semInsert {id : SemId} {P : Option Errno × Nat → Fs → Prop}
    (hshort : s.sems.elems.length ≤ rootdir)
    (hfail : ∀ e k m, (s.sems.elems.length = rootdir ∨ s.Grows ∧ s.memory s.kmallocs = false) →
      P (some e, m) (s.tick k))
    (hdone : ∀ n a, s.sems.elems.length ≠ rootdir → (s.Grows → s.memory s.kmallocs = true) →
      Put s.sems.elems a.elems n id → a.elems.length ≤ rootdir →
      P (none, n) { s.tick (if s.Grows then 1 else 0) with sems := a }) :
    Gives ok (semInsert id) P s := by
  rw [semInsert, gives_bind, gives_get, gives_ite]
  refine ⟨fun hroot => (gives_pure _).2 (hfail _ 0 _ (.inl hroot)), fun hroot => ?_⟩
  rw [gives_ite]
  refine ⟨fun hlt => ?_, fun hge => ?_⟩
  · have hno : ¬ s.Grows := fun h => absurd h.1 (Nat.not_le.2 hlt)
    have hset := hdone (firstEmpty s.sems.elems)
      { s.sems with elems := s.sems.elems.set (firstEmpty s.sems.elems) (some id) } hroot
      (fun h => absurd h hno) (put_set hlt (firstEmpty_empty s.sems.elems))
      (by rwa [List.length_set])
    rw [if_neg hno] at hset
    simp only [semarraySet, gives_bind, gives_modify, gives_pure]
    exact hset
  · rw [Nat.not_lt] at hge
    simp only [semarrayAdd, gives_bind, gives_get]
    refine gives_preallocate (fun hfull hmem => ?_) fun max hmem => ?_
    · exact (gives_pure _).2 (hfail _ 1 _ (.inr ⟨⟨hge, hfull⟩, hmem⟩))
    · have hgrows : s.Grows ↔ s.sems.max < s.sems.elems.length + 1 := and_iff_right hge
      have hadd := hdone s.sems.elems.length ⟨s.sems.elems ++ [some id], max⟩ hroot
        (fun h => hmem h.2) (put_append id) (by
          rw [List.length_append, List.length_singleton]
          omega)
      simp only [gives_bind, gives_modify, gives_pure]
      simp only [hgrows] at hadd
      exact hadd

/-- A directory entry is made, or one of two calls of `kmalloc` fails. -/
theorem gives_direntryCreate {name : Name} {n : Nat} {P : Option (Name × Nat) → Fs → Prop}
    (hfail : ∀ k, ¬ (s.memory s.kmallocs = true ∧ s.memory (s.kmallocs + 1) = true) →
      P none (s.tick k))
    (hdone : s.memory s.kmallocs = true → s.memory (s.kmallocs + 1) = true →
      P (some (name, n)) (s.tick 2)) :
    Gives ok (direntryCreate name n) P s := by
  rw [direntryCreate, gives_bind]
  refine gives_kmalloc ?_
  rw [gives_ite]
  refine ⟨fun h₀ => ?_, fun h₀ => ?_⟩
  · rw [gives_bind]
    refine gives_kmalloc ?_
    rw [gives_ite, gives_pure, gives_pure]
    exact ⟨hdone h₀, fun h₁ => hfail 2 fun h => h₁ h.2⟩
  · rw [gives_pure]
    exact hfail 1 fun h => h₀ h.1

end Memory

/-! ## Vnodes -/

section Vnodes

variable {ok : Panic → Prop} {s t : Fs} {n : Nat} {v : VnId}

/-- The vnode of the semaphore `n` has been found or made. -/
structure Got (s : Fs) (n : Nat) (v : VnId) (t : Fs) : Prop where
  tables : Tables t
  vnode : v ∈ t.vnodes.elems ∧ ∃ d, t.vn v = some d ∧ d.semnum = n
  sems : t.sems = s.sems
  dents : t.dents = s.dents
  linked : ∀ id x, s.sem id = some x → ∃ x', t.sem id = some x' ∧ x'.linked = x.linked
  brk : s.brk ≤ t.brk

theorem Tables.ne_rootdir (hs : Tables s) {id : SemId} (h : s.At n id) : n ≠ rootdir := by
  rintro rfl
  have hlt := (List.getElem?_eq_some_iff.1 h).1
  exact absurd hs.short (Nat.not_le.2 hlt)

/-- A change of a reference count. -/
theorem Tables.setVnode (hs : Tables s) {d d' : Vnode} (hd : s.vn v = some d)
    (hnum : d'.semnum = d.semnum) :
    Tables { s with vn := Function.update s.vn v (some d') } := by
  -- the numbers of the vnodes are as before
  have hvn : ∀ w e, Function.update s.vn v (some d') w = some e → ∃ e', s.vn w = some e' ∧
      e'.semnum = e.semnum := fun w e he => by
    by_cases hw : w = v
    · rw [hw, Function.update_self, Option.some.injEq] at he
      exact ⟨d, by rw [hw]; exact hd, by rw [← he, hnum]⟩
    · rw [Function.update_of_ne hw] at he
      exact ⟨e, he, rfl⟩
  have hvn' : ∀ w e, s.vn w = some e → ∃ e', Function.update s.vn v (some d') w = some e' ∧
      e'.semnum = e.semnum := fun w e he => by
    by_cases hw : w = v
    · subst hw
      obtain rfl : d = e := Option.some.inj (hd.symm.trans he)
      exact ⟨d', Function.update_self .., hnum⟩
    · exact ⟨e, (Function.update_of_ne hw ..).trans he, rfl⟩
  exact
    { live := hs.live
      ids := hs.ids
      vnode := fun w hw => by
        obtain ⟨hlt, e, he, hsem⟩ := hs.vnode w hw
        obtain ⟨e', he', heq⟩ := hvn' w e he
        exact ⟨hlt, e', he', by rw [heq]; exact hsem⟩
      hasvnode := fun m id x hm hx hflag => by
        obtain ⟨w, hw, e, he, hnum'⟩ := hs.hasvnode m id x hm hx hflag
        obtain ⟨e', he', heq⟩ := hvn' w e he
        exact ⟨w, hw, e', he', heq.trans hnum'⟩
      once := fun w hw w' hw' e e' he he' heq => by
        obtain ⟨f, hf, hfe⟩ := hvn w e he
        obtain ⟨f', hf', hfe'⟩ := hvn w' e' he'
        exact hs.once w hw w' hw' f f' hf hf' (by rw [hfe, hfe', heq])
      here := fun w e he => by
        obtain ⟨f, hf, -⟩ := hvn w e he
        exact hs.here w f hf
      nodup := hs.nodup
      short := hs.short }

/-- A new vnode for a semaphore without one, or for the directory. -/
theorem Tables.addVnode (hs : Tables s) {sem' : SemId → Option Sem} {max k : Nat}
    (hn : n = rootdir ∨ ∃ id, s.At n id)
    (hnone : ∀ w ∈ s.vnodes.elems, ∀ e, s.vn w = some e → e.semnum ≠ n)
    (hsem : ∀ m id x, s.At m id → s.sem id = some x → ∃ x', sem' id = some x' ∧
      (x'.hasvnode = true ↔ x.hasvnode = true ∨ m = n)) :
    Tables { s with
      vnodes := ⟨s.vnodes.elems ++ [s.brk], max⟩
      vn := Function.update s.vn s.brk (some ⟨n, 1⟩)
      sem := sem'
      brk := s.brk + 1
      kmallocs := k } := by
  have hfresh : s.brk ∉ s.vnodes.elems := fun hmem =>
    absurd (hs.vnode _ hmem).1 (Nat.lt_irrefl _)
  have hold : ∀ w ∈ s.vnodes.elems, Function.update s.vn s.brk (some ⟨n, 1⟩) w = s.vn w :=
    fun w hw => Function.update_of_ne (fun heq : w = s.brk => hfresh (heq ▸ hw)) _ _
  have hself : Function.update s.vn s.brk (some ⟨n, 1⟩) s.brk = some ⟨n, 1⟩ :=
    Function.update_self ..
  have hmem : ∀ w, w ∈ s.vnodes.elems ++ [s.brk] ↔ w ∈ s.vnodes.elems ∨ w = s.brk := fun w => by
    rw [List.mem_append, List.mem_singleton]
  -- the semaphore of a live place, before and after
  have hback : ∀ m id x', s.At m id → sem' id = some x' → ∃ x, s.sem id = some x ∧
      (x'.hasvnode = true ↔ x.hasvnode = true ∨ m = n) := fun m id x' hm hx' => by
    obtain ⟨-, x, hx⟩ := hs.live m id hm
    obtain ⟨y, hy, hiff⟩ := hsem m id x hm hx
    obtain rfl : y = x' := Option.some.inj (hy.symm.trans hx')
    exact ⟨x, hx, hiff⟩
  exact
    { live := fun m id hm => by
        obtain ⟨hlt, x, hx⟩ := hs.live m id hm
        obtain ⟨x', hx', -⟩ := hsem m id x hm hx
        exact ⟨Nat.lt_succ_of_lt hlt, x', hx'⟩
      ids := hs.ids
      vnode := fun w hw => by
        rcases (hmem w).1 hw with hw | rfl
        · obtain ⟨hlt, d, hd, hsemnum⟩ := hs.vnode w hw
          refine ⟨Nat.lt_succ_of_lt hlt, d, (hold w hw).trans hd, hsemnum.imp_right ?_⟩
          rintro ⟨id, x, hat, hx, hflag⟩
          obtain ⟨x', hx', hiff⟩ := hsem _ id x hat hx
          exact ⟨id, x', hat, hx', hiff.2 (.inl hflag)⟩
        · refine ⟨Nat.lt_succ_self _, ⟨n, 1⟩, hself, hn.imp_right ?_⟩
          rintro ⟨id, hat⟩
          obtain ⟨-, x, hx⟩ := hs.live n id hat
          obtain ⟨x', hx', hiff⟩ := hsem n id x hat hx
          exact ⟨id, x', hat, hx', hiff.2 (.inr rfl)⟩
      hasvnode := fun m id x' hm hx' hflag => by
        obtain ⟨x, hx, hiff⟩ := hback m id x' hm hx'
        rcases hiff.1 hflag with hflag | rfl
        · obtain ⟨w, hw, d, hd, hnum⟩ := hs.hasvnode m id x hm hx hflag
          exact ⟨w, (hmem w).2 (.inl hw), d, (hold w hw).trans hd, hnum⟩
        · exact ⟨s.brk, (hmem _).2 (.inr rfl), ⟨m, 1⟩, hself, rfl⟩
      once := fun w hw w' hw' d d' hd hd' hnum => by
        rcases (hmem w).1 hw with hw | rfl <;> rcases (hmem w').1 hw' with hw' | rfl
        · exact hs.once w hw w' hw' d d' ((hold w hw).symm.trans hd)
            ((hold w' hw').symm.trans hd') hnum
        · obtain rfl := Option.some.inj (hself.symm.trans hd')
          exact absurd hnum (hnone w hw d ((hold w hw).symm.trans hd))
        · obtain rfl := Option.some.inj (hself.symm.trans hd)
          exact absurd hnum.symm (hnone w' hw' d' ((hold w' hw').symm.trans hd'))
        · rfl
      here := fun w d hd => by
        by_cases hw : w = s.brk
        · exact (hmem w).2 (.inr hw)
        · exact (hmem w).2 (.inl (hs.here w d ((Function.update_of_ne hw _ _).symm.trans hd)))
      nodup := by
        refine List.nodup_append.2 ⟨hs.nodup, by simp, fun a ha b hb => ?_⟩
        rw [List.mem_singleton.1 hb]
        rintro rfl
        exact hfresh ha
      short := hs.short }

/-- The search for a vnode. -/
theorem gives_findVnode {P : Option (VnId × Vnode) → Fs → Prop} (vs : List VnId)
    (hlive : ∀ w ∈ vs, ∃ e, s.vn w = some e)
    (hfound : ∀ w ∈ vs, ∀ e, s.vn w = some e → e.semnum = n → P (some (w, e)) s)
    (hnone : (∀ w ∈ vs, ∀ e, s.vn w = some e → e.semnum ≠ n) → P none s) :
    Gives ok (findVnode n vs) P s := by
  induction vs with
  | nil => exact (gives_pure _).2 (hnone nofun)
  | cons w rest ih =>
      obtain ⟨e, he⟩ := hlive w List.mem_cons_self
      rw [findVnode, gives_bind, gives_get, he]
      dsimp only
      rw [gives_ite]
      refine ⟨fun heq => ?_, fun hne => ?_⟩
      · exact (gives_pure _).2 (hfound w List.mem_cons_self e he heq)
      · refine ih (fun u hu => hlive u (List.mem_cons_of_mem w hu))
          (fun u hu => hfound u (List.mem_cons_of_mem w hu)) fun hrest => hnone fun u hu f hf => ?_
        rcases List.mem_cons.1 hu with rfl | hu
        · obtain rfl := Option.some.inj (he.symm.trans hf)
          exact hne
        · exact hrest u hu f hf

theorem gives_getsembynum {id : SemId} {x : Sem} {P : SemId × Sem → Fs → Prop} (hat : s.At n id)
    (hx : s.sem id = some x) (h : P (id, x) s) : Gives ok (getsembynum n) P s := by
  rw [getsembynum, gives_bind, gives_get, show s.sems.elems[n]? = some (some id) from hat]
  dsimp only
  rw [deref, gives_bind, gives_bind, gives_get, hx]
  exact (gives_pure _).2 ((gives_pure _).2 h)

/-- Memory for a vnode, or for its place in the table, is missing at a call of `kmalloc`. -/
def Fs.NoVnode (s : Fs) (k : Nat) : Prop :=
  ¬ (s.memory k = true ∧ (s.vnodes.max < s.vnodes.elems.length + 1 → s.memory (k + 1) = true))

/-- `semfs_getvnode` finds or makes the vnode, or is out of memory. -/
theorem gives_getvnode {P : Option Errno × Option VnId → Fs → Prop} (hs : Tables s)
    (hn : n = rootdir ∨ ∃ id, s.At n id)
    (hfail : ∀ k, s.NoVnode s.kmallocs → P (some .ENOMEM, none) (s.tick k))
    (hdone : ∀ v t, Got s n v t → P (none, some v) t) : Gives ok (getvnode n) P s := by
  rw [getvnode, gives_bind, gives_get, gives_bind]
  refine gives_findVnode _ (fun w hw => ?_) (fun w hw e he hnum => ?_) fun hnone => ?_
  · obtain ⟨-, e, he, -⟩ := hs.vnode w hw
    exact ⟨e, he⟩
  · simp only [setVnode, gives_bind, gives_modify, gives_pure]
    refine hdone w _ ⟨hs.setVnode he rfl, ⟨hw, _, Function.update_self .., hnum⟩, rfl, rfl,
      fun id x hx => ⟨x, hx, rfl⟩, Nat.le_refl _⟩
  · dsimp only
    rw [gives_bind]
    refine gives_kmalloc ?_
    rw [gives_ite]
    refine ⟨fun _ => ?_, fun hmem => (gives_pure _).2 (hfail 1 fun h => hmem h.1)⟩
    rw [gives_bind, vnodearrayAdd, gives_bind, gives_get, gives_bind]
    refine gives_preallocate (fun hfull hmem => ?_) fun max _ => ?_
    · refine (gives_pure _).2 ((gives_pure _).2 (hfail 2 fun h => ?_))
      exact absurd (h.2 hfull) (ne_true_of_eq_false hmem)
    · dsimp only
      rw [gives_bind, gives_modify, gives_pure]
      dsimp only
      have hmem : s.brk ∈ s.vnodes.elems ++ [s.brk] := List.mem_append_right _ List.mem_cons_self
      rw [gives_ite]
      refine ⟨fun hroot => ?_, fun hroot => ?_⟩
      · refine (gives_pure _).2 (hdone s.brk _ ⟨hs.addVnode hn hnone fun m id x hm hx => ?_,
          ⟨hmem, _, Function.update_self .., rfl⟩, rfl, rfl, fun id x hx => ⟨x, hx, rfl⟩,
          Nat.le_succ _⟩)
        have hne : m ≠ n := fun heq => hs.ne_rootdir hm (heq.trans hroot)
        exact ⟨x, hx, by simp [hne]⟩
      · obtain ⟨id, hat⟩ := hn.resolve_left hroot
        obtain ⟨-, x, hx⟩ := hs.live n id hat
        have hflag : x.hasvnode = false := by
          by_contra hflag
          obtain ⟨w, hw, e, he, hnum⟩ := hs.hasvnode n id x hat hx (by simpa using hflag)
          exact hnone w hw e he hnum
        rw [gives_bind]
        refine gives_getsembynum hat hx ?_
        dsimp only
        rw [gives_ite]
        refine ⟨fun h => absurd h (by rw [hflag]; decide), fun _ => ?_⟩
        rw [gives_bind, setSem, gives_modify, gives_pure]
        refine hdone s.brk _ ⟨hs.addVnode hn hnone fun m id' x' hm hx' => ?_,
          ⟨hmem, _, Function.update_self .., rfl⟩, rfl, rfl, fun id' x' hx' => ?_, Nat.le_succ _⟩
        · by_cases hid : id' = id
          · subst hid
            obtain rfl : x = x' := Option.some.inj (hx.symm.trans hx')
            exact ⟨_, Function.update_self .., by simp [hs.ids m n id' hm hat]⟩
          · refine ⟨x', (Function.update_of_ne hid _ _).trans hx', ?_⟩
            have hne : m ≠ n := by
              rintro rfl
              exact hid (Option.some.inj (Option.some.inj (Eq.trans (Eq.symm hm) hat)))
            simp [hne]
        · by_cases hid : id' = id
          · subst hid
            obtain rfl : x = x' := Option.some.inj (hx.symm.trans hx')
            exact ⟨_, Function.update_self .., rfl⟩
          · exact ⟨x', (Function.update_of_ne hid _ _).trans hx', rfl⟩

end Vnodes

/-! ## All or nothing -/

/-- What a call of `semfs_creat` has to do: it returns `0` with a vnode, one directory entry of the
name and a linked semaphore behind it, or an error number with everything as it was. -/
def AllOrNothing (s : Fs) (name : Name) : Option Errno × Option VnId → Fs → Prop
  | (none, resultvn), t => ∃ v n i id x, resultvn = some v ∧ v ∈ t.vnodes.elems ∧
      (∃ d, t.vn v = some d ∧ d.semnum = n) ∧ t.Entry i name n ∧
      (∀ j m, t.Entry j name m → j = i) ∧ t.At n id ∧ t.sem id = some x ∧ x.linked = true
  | (some _, _), t => Same s t

/-- The first call of `kmalloc` in `semfs_direntry_create`. -/
def Fs.direntKmalloc (s : Fs) : Nat := s.kmallocs + 3 + if s.Grows then 1 else 0

/-- The name can be created and is not there. -/
structure Fs.New (s : Fs) (name : Name) : Prop where
  dots : isDots name = false
  missing : findDent name s.dents.elems = none

/-- The name is new, and a semaphore is made and gets a number. -/
structure Fs.Inserts (s : Fs) (name : Name) : Prop extends s.New name where
  created : ∀ i < 3, s.memory (s.kmallocs + i) = true
  room : s.sems.elems.length ≠ rootdir
  inserted : s.Grows → s.memory (s.kmallocs + 3) = true

/-- Then memory for the directory entry or for its name is missing. -/
structure Fs.DirentFails (s : Fs) (name : Name) : Prop extends s.Inserts name where
  fails : ¬ (s.memory s.direntKmalloc = true ∧ s.memory (s.direntKmalloc + 1) = true)

/-- The directory has no room for another entry without `kmalloc`. -/
def Fs.DentsGrow (s : Fs) : Prop :=
  s.dents.elems.length ≤ firstEmpty s.dents.elems ∧ s.dents.max < s.dents.elems.length + 1

instance (s : Fs) : Decidable s.DentsGrow := inferInstanceAs (Decidable (_ ∧ _))

/-- The first call of `kmalloc` in `semfs_getvnode`, when the directory has a new entry. -/
def Fs.vnodeKmalloc (s : Fs) : Nat := s.direntKmalloc + 2 + if s.DentsGrow then 1 else 0

/-- Then an entry is made and gets its place in the directory. -/
structure Fs.Puts (s : Fs) (name : Name) : Prop extends s.Inserts name where
  dirent : s.memory s.direntKmalloc = true ∧ s.memory (s.direntKmalloc + 1) = true
  put : s.DentsGrow → s.memory (s.direntKmalloc + 2) = true

/-- Then memory for the vnode is missing. -/
structure Fs.VnodeFails (s : Fs) (name : Name) : Prop extends s.Puts name where
  fails : s.NoVnode s.vnodeKmalloc

section Creat

variable {ok : Panic → Prop} {s t : Fs} {n : Nat} {name : Name}

theorem findDent_eq_none {l : List (Option (Name × Nat))} :
    findDent name l = none ↔ ∀ i n : Nat, l[i]? ≠ some (some (name, n)) := by
  induction l with
  | nil => simp [findDent]
  | cons d rest ih =>
      have hcons : (∀ i n : Nat, (d :: rest)[i]? ≠ some (some (name, n))) ↔
          (∀ n : Nat, d ≠ some (name, n)) ∧ ∀ i n : Nat, rest[i]? ≠ some (some (name, n)) := by
        constructor
        · intro h
          exact ⟨fun n hd => h 0 n (by rw [hd]; rfl), fun i n hi => h (i + 1) n hi⟩
        · rintro ⟨hd, hrest⟩ (_ | i) n hi
          · exact hd n (Option.some.inj hi)
          · exact hrest i n hi
      rw [hcons, ← ih]
      rcases d with _ | ⟨name', n⟩
      · simp [findDent]
      · by_cases hname : name = name'
        · simp [findDent, hname]
        · simp [findDent, hname, Ne.symm hname]

/-- The entry that is found has the name. -/
theorem findDent_eq_some {l : List (Option (Name × Nat))} {i : Nat}
    (h : findDent name l = some (i, n)) : l[i]? = some (some (name, n)) := by
  induction l generalizing i with
  | nil => cases h
  | cons d rest ih =>
      rcases d with _ | ⟨name', m⟩
      · obtain ⟨⟨j, k⟩, hj, heq⟩ := Option.map_eq_some_iff.1 h
        cases heq
        exact ih hj
      · rw [findDent] at h
        split_ifs at h with hname
        · cases h
          rw [hname]
          rfl
        · obtain ⟨⟨j, k⟩, hj, heq⟩ := Option.map_eq_some_iff.1 h
          cases heq
          exact ih hj

/-- What has been acquired is given back. -/
theorem same_undo {a : Arr (Option SemId)} {d : Arr (Option (Name × Nat))}
    {sem' : SemId → Option Sem} {k : Nat} (hs : Tables s)
    (ha : ∀ m id, a.elems[m]? = some (some id) ↔ s.At m id) (hlen : a.elems.length ≤ rootdir)
    (hd : ∀ i name n, d.elems[i]? = some (some (name, n)) ↔ s.Entry i name n)
    (hsem : ∀ id < s.brk, sem' id = s.sem id) :
    Same s { s with sems := a, dents := d, sem := sem', brk := s.brk + 1, kmallocs := k } where
  sems := ha
  dents := hd
  vnodes := rfl
  sem n id hat := hsem id (hs.live n id hat).1
  vn := rfl
  brk := Nat.le_succ _
  short _ := hlen

/-- A new semaphore in an empty place, which is not linked yet. -/
theorem Tables.addSem {a : Arr (Option SemId)} {d : Arr (Option (Name × Nat))} {k : Nat}
    (hs : Tables s) (hput : Put s.sems.elems a.elems n s.brk) (hlen : a.elems.length ≤ rootdir) :
    Tables { s with
      sems := a
      dents := d
      sem := Function.update s.sem s.brk (some ⟨false, false⟩)
      brk := s.brk + 1
      kmallocs := k } := by
  have hself : Function.update s.sem s.brk (some (⟨false, false⟩ : Sem)) s.brk =
      some ⟨false, false⟩ := Function.update_self ..
  have hold : ∀ m id, s.At m id →
      Function.update s.sem s.brk (some (⟨false, false⟩ : Sem)) id = s.sem id := fun m id hat =>
    Function.update_of_ne (Nat.ne_of_lt (hs.live m id hat).1) _ _
  exact
    { live := fun m id hm => by
        rcases (hput.at_iff m id).1 hm with ⟨rfl, rfl⟩ | hm
        · exact ⟨Nat.lt_succ_self _, _, hself⟩
        · obtain ⟨hlt, x, hx⟩ := hs.live m id hm
          exact ⟨Nat.lt_succ_of_lt hlt, x, (hold m id hm).trans hx⟩
      ids := fun m m' j hm hm' => by
        have hlt : ∀ m, s.At m j → j < s.brk := fun m hm => (hs.live m j hm).1
        rcases (hput.at_iff m j).1 hm with ⟨hmn, hj⟩ | hm <;>
          rcases (hput.at_iff m' j).1 hm' with ⟨hmn', hj'⟩ | hm'
        · rw [hmn, hmn']
        · exact absurd hj (Nat.ne_of_lt (hlt m' hm'))
        · exact absurd hj' (Nat.ne_of_lt (hlt m hm))
        · exact hs.ids m m' j hm hm'
      vnode := fun v hv => by
        obtain ⟨hlt, e, he, hsem⟩ := hs.vnode v hv
        refine ⟨Nat.lt_succ_of_lt hlt, e, he, hsem.imp_right ?_⟩
        rintro ⟨id, x, hat, hx, hflag⟩
        exact ⟨id, x, (hput.at_iff _ id).2 (.inr hat), (hold _ id hat).trans hx, hflag⟩
      hasvnode := fun m id x hm hx hflag => by
        rcases (hput.at_iff m id).1 hm with ⟨rfl, rfl⟩ | hm
        · obtain rfl := Option.some.inj (hself.symm.trans hx)
          cases hflag
        · exact hs.hasvnode m id x hm ((hold m id hm).symm.trans hx) hflag
      once := hs.once
      here := hs.here
      nodup := hs.nodup
      short := hlen }

/-- `sems_linked` does not matter to the tables. -/
theorem Tables.setSem (hs : Tables s) {id : SemId} {x x' : Sem} (hx : s.sem id = some x)
    (hflag : x'.hasvnode = x.hasvnode) :
    Tables { s with sem := Function.update s.sem id (some x') } := by
  have hsem : ∀ j y, s.sem j = some y → ∃ y', Function.update s.sem id (some x') j = some y' ∧
      y'.hasvnode = y.hasvnode := fun j y hy => by
    by_cases hj : j = id
    · subst hj
      obtain rfl := Option.some.inj (hx.symm.trans hy)
      exact ⟨x', Function.update_self .., hflag⟩
    · exact ⟨y, (Function.update_of_ne hj ..).trans hy, rfl⟩
  exact
    { live := fun m j hm => by
        obtain ⟨hlt, y, hy⟩ := hs.live m j hm
        obtain ⟨y', hy', -⟩ := hsem j y hy
        exact ⟨hlt, y', hy'⟩
      ids := hs.ids
      vnode := fun v hv => by
        obtain ⟨hlt, d, hd, hat⟩ := hs.vnode v hv
        refine ⟨hlt, d, hd, hat.imp_right ?_⟩
        rintro ⟨j, y, hat, hy, hy'⟩
        obtain ⟨z, hz, heq⟩ := hsem j y hy
        exact ⟨j, z, hat, hz, heq.trans hy'⟩
      hasvnode := fun m j z hm hz hz' => by
        obtain ⟨-, y, hy⟩ := hs.live m j hm
        obtain ⟨z', hz'', heq⟩ := hsem j y hy
        obtain rfl := Option.some.inj (hz.symm.trans hz'')
        exact hs.hasvnode m j y hm hy (heq.symm.trans hz')
      once := hs.once
      here := hs.here
      nodup := hs.nodup
      short := hs.short }

/-- The directory with a new entry, for a semaphore that was not linked. -/
theorem Entries.add {i : Nat} {id : SemId} (hs : Tables s) (he : Entries s)
    (hmissing : findDent name s.dents.elems = none)
    (hsems : Put s.sems.elems t.sems.elems n id) (hdents : Put s.dents.elems t.dents.elems i (name, n))
    (hlinked : ∃ x, t.sem id = some x ∧ x.linked = true)
    (hold : ∀ j < s.brk, ∀ x, s.sem j = some x → ∃ x', t.sem j = some x' ∧ x'.linked = x.linked) :
    Entries t where
  linked j name' m hj := by
    rcases (hdents.at_iff j _).1 hj with ⟨-, heq⟩ | hj
    · cases heq
      obtain ⟨x, hx, hflag⟩ := hlinked
      exact ⟨id, x, (hsems.at_iff n id).2 (.inl ⟨rfl, rfl⟩), hx, hflag⟩
    · obtain ⟨id', x, hat, hx, hflag⟩ := he.linked j name' m hj
      obtain ⟨x', hx', heq⟩ := hold id' (hs.live m id' hat).1 x hx
      exact ⟨id', x', (hsems.at_iff m id').2 (.inr hat), hx', heq.trans hflag⟩
  names j k name' m m' hj hk := by
    have hnew := findDent_eq_none.1 hmissing
    rcases (hdents.at_iff j _).1 hj with ⟨hji, hj⟩ | hj <;>
      rcases (hdents.at_iff k _).1 hk with ⟨hki, hk⟩ | hk
    · rw [hji, hki]
    · cases hj
      exact absurd hk (hnew k m')
    · cases hk
      exact absurd hj (hnew j m)
    · exact he.names j k name' m m' hj hk
  numbers j k name₁ name₂ m hj hk := by
    -- no entry had the number `n`, as it was no semaphore's
    have hnone : ∀ k name', ¬ s.Entry k name' n := fun k name' hk => by
      obtain ⟨id', x, hat, -⟩ := he.linked k name' n hk
      exact hsems.old id' hat
    rcases (hdents.at_iff j _).1 hj with ⟨hji, hj⟩ | hj <;>
      rcases (hdents.at_iff k _).1 hk with ⟨hki, hk⟩ | hk
    · rw [hji, hki]
    · cases hj
      exact absurd hk (hnone k name₂)
    · cases hk
      exact absurd hj (hnone j name₁)
    · exact he.numbers j k name₁ name₂ m hj hk

/-- An entry gets a place in the directory, or nothing happens. -/
theorem gives_direntryPut {α : Type} {dent : Name × Nat} {f : Option Errno × Nat → SemCall α}
    {P : α → Fs → Prop} {empty num : Nat} (hempty : empty = firstEmpty s.dents.elems)
    (hnum : num = s.dents.elems.length) (hfail : ∀ e k m, Gives ok (f (some e, m)) P (s.tick k))
    (hdone : ∀ i d, (s.DentsGrow → s.memory s.kmallocs = true) → Put s.dents.elems d.elems i dent →
      Gives ok (f (none, i)) P { s.tick (if s.DentsGrow then 1 else 0) with dents := d }) :
    Gives ok (if empty < num then do
        direntryarraySet empty (some dent)
        let x ← pure (none, empty)
        f x
      else do
        let x ← direntryarrayAdd dent
        f x) P s := by
  subst hempty hnum
  rw [gives_ite]
  refine ⟨fun hlt => ?_, fun hge => ?_⟩
  · have hno : ¬ s.DentsGrow := fun h => absurd h.1 (Nat.not_le.2 hlt)
    have hset := hdone _
      { s.dents with elems := s.dents.elems.set (firstEmpty s.dents.elems) (some dent) }
      (fun h => absurd h hno) (put_set hlt (firstEmpty_empty s.dents.elems))
    rw [if_neg hno] at hset
    rw [gives_bind, direntryarraySet, gives_modify, gives_bind, gives_pure]
    exact hset
  · rw [gives_bind, direntryarrayAdd, gives_bind, gives_get, gives_bind]
    refine gives_preallocate (fun _ _ => ?_) fun max hmem => ?_
    · exact (gives_pure _).2 (hfail _ 1 _)
    · have hgrows : s.DentsGrow ↔ s.dents.max < s.dents.elems.length + 1 :=
        and_iff_right (Nat.not_lt.1 hge)
      have hadd := hdone s.dents.elems.length ⟨s.dents.elems ++ [some dent], max⟩
        (fun h => hmem h.2) (put_append dent)
      simp only [hgrows] at hadd
      dsimp only
      rw [gives_bind, gives_modify, gives_pure]
      exact hadd

/-- The semaphore is there, with an entry in the directory and a vnode. -/
structure Created (s : Fs) (name : Name) (v : VnId) (t : Fs) : Prop where
  tables : Tables t
  entries : Entries t
  done : AllOrNothing s name (none, some v) t
  dents : t.dents = s.dents ∨ s.Puts name ∧ ∃ i n, Put s.dents.elems t.dents.elems i (name, n)

/-- `semfs_creat` for a name that is not there. -/
theorem gives_creatNew {P : Option Errno × Option VnId → Fs → Prop} (hs : Tables s)
    (he : Entries s) (hnew : s.New name)
    (hfail : ∀ e t, ¬ s.DirentFails name → Same s t →
      t.dents.elems = s.dents.elems ∨ s.VnodeFails name → P (some e, none) t)
    (hlost : ∀ t, s.DirentFails name → Same s t → t.dents = s.dents → P (none, none) t)
    (hdone : ∀ v t, ¬ s.DirentFails name → Created s name v t → P (none, some v) t) :
    Gives ok (creatNew name (firstEmpty s.dents.elems) s.dents.elems.length) P s := by
  rw [creatNew, gives_bind]
  refine gives_semCreate (fun k hno => ?_) fun hcreated => ?_
  · exact (gives_pure _).2 (hfail _ _ (fun h => hno h.created) (same_tick s k) (.inl rfl))
  have hforget : ∀ id < s.brk, Function.update
      (Function.update s.sem s.brk (some ⟨false, false⟩)) s.brk none id = s.sem id :=
    fun id hid => by rw [Function.update_of_ne (Nat.ne_of_lt hid), Function.update_of_ne
      (Nat.ne_of_lt hid)]
  dsimp only
  rw [gives_bind]
  refine gives_semInsert hs.short (fun e k m hno => ?_) fun n a hroom hmem hsems hlen => ?_
  · -- the new semaphore gets no number
    have hno' : ¬ s.DirentFails name := fun h => by
      rcases hno with hroot | ⟨hgrows, hmem⟩
      · exact h.room hroot
      · exact absurd (h.inserted hgrows) (by
          rw [show s.memory (s.kmallocs + 3) = false from hmem]
          decide)
    simp only [gives_ite, gives_bind, semDestroy, gives_modify, gives_pure]
    refine ⟨fun _ => hfail _ _ hno' ?_ (.inl rfl), fun h => absurd (Option.some_ne_none e) h⟩
    exact same_undo hs (fun _ _ => Iff.rfl) hs.short (fun _ _ _ => Iff.rfl) hforget
  -- the semaphore has the number `n`
  have hinserts : s.Inserts name := ⟨hnew, hcreated, hroom, hmem⟩
  have htables : ∀ d k, Tables { s with
      sems := a, dents := d, sem := Function.update s.sem s.brk (some ⟨false, false⟩),
      brk := s.brk + 1, kmallocs := k } := fun d k => hs.addSem hsems hlen
  have hundo : ∀ d k, (∀ i name n, d.elems[i]? = some (some (name, n)) ↔ s.Entry i name n) →
      Same s { s with
        sems := { a with elems := a.elems.set n none }, dents := d,
        sem := Function.update (Function.update s.sem s.brk (some ⟨false, false⟩)) s.brk none,
        brk := s.brk + 1, kmallocs := k } := fun d k hd =>
    same_undo hs (fun m id => hsems.undo m id) (by rwa [List.length_set]) hd hforget
  simp only [gives_ite]
  refine ⟨fun h => absurd rfl h, fun _ => ?_⟩
  rw [gives_bind]
  refine gives_direntryCreate (fun k hno => ?_) fun hdent hdent' => ?_
  · simp only [failUninsert, semarraySet, semDestroy, gives_bind, gives_modify, gives_pure]
    exact hlost _ ⟨hinserts, hno⟩ (hundo _ _ fun _ _ _ => Iff.rfl) rfl
  have hno : ¬ s.DirentFails name := fun h => h.fails ⟨hdent, hdent'⟩
  dsimp only
  refine gives_direntryPut rfl rfl (fun e k m => ?_) fun i d hput hdents => ?_
  · simp only [failUninsert, semarraySet, semDestroy, gives_ite, gives_bind, gives_modify,
      gives_pure]
    refine ⟨fun _ => hfail _ _ hno ?_ (.inl rfl), fun h => absurd (Option.some_ne_none e) h⟩
    exact hundo _ _ fun _ _ _ => Iff.rfl
  have hputs : s.Puts name := ⟨hinserts, ⟨hdent, hdent'⟩, hput⟩
  simp only [gives_ite]
  refine ⟨fun h => absurd rfl h, fun _ => ?_⟩
  have hat : a.elems[n]? = some (some s.brk) := (hsems.at_iff n _).2 (.inl ⟨rfl, rfl⟩)
  rw [gives_bind]
  refine gives_getvnode (htables d _) (.inr ⟨s.brk, hat⟩) (fun k hvnode => ?_) fun v t hgot => ?_
  · simp only [failUninsert, direntryarraySet, semarraySet, semDestroy, gives_ite, gives_bind,
      gives_modify, gives_pure]
    refine ⟨fun _ => hfail _ _ hno (hundo _ _ fun j name' m => ?_)
      (.inr ⟨hputs, hvnode⟩),
      fun h => absurd (Option.some_ne_none Errno.ENOMEM) h⟩
    exact hdents.undo j (name', m)
  · simp only [gives_ite]
    refine ⟨fun h => absurd rfl h, fun _ => ?_⟩
    obtain ⟨x, hx, hflag⟩ := hgot.linked s.brk ⟨false, false⟩ (Function.update_self ..)
    rw [gives_bind, deref, gives_bind, gives_get, hx]
    dsimp only
    rw [gives_pure, gives_bind, setSem, gives_modify, gives_pure]
    have hself := Function.update_self s.brk (some { x with linked := true }) t.sem
    have hsems' : Put s.sems.elems t.sems.elems n s.brk := by
      rw [hgot.sems]
      exact hsems
    have hdents' : Put s.dents.elems t.dents.elems i (name, n) := by
      rw [hgot.dents]
      exact hdents
    have hentry : t.dents.elems[i]? = some (some (name, n)) :=
      (hdents'.at_iff i _).2 (.inl ⟨rfl, rfl⟩)
    have hentries : Entries { t with
        sem := Function.update t.sem s.brk (some { x with linked := true }) } := by
      refine he.add hs hnew.missing hsems' hdents' ⟨_, hself, rfl⟩ fun j hj y hy => ?_
      have hne : j ≠ s.brk := Nat.ne_of_lt hj
      obtain ⟨y', hy', heq⟩ := hgot.linked j y ((Function.update_of_ne hne _ _).trans hy)
      exact ⟨y', (Function.update_of_ne hne _ _).trans hy', heq⟩
    exact hdone v _ hno
      { tables := hgot.tables.setSem hx rfl
        entries := hentries
        done := ⟨v, n, i, s.brk, _, rfl, hgot.vnode.1, hgot.vnode.2, hentry,
          fun j m hj => hentries.names j i name m n hj hentry,
          (hsems'.at_iff n _).2 (.inl ⟨rfl, rfl⟩), hself, rfl⟩
        dents := .inr ⟨hputs, i, n, hdents'⟩ }

/-- The directory when semaphores that are linked stay where they are. -/
theorem Entries.keep (he : Entries s) (hdents : t.dents = s.dents)
    (hkeep : ∀ m id x, s.At m id → s.sem id = some x → x.linked = true →
      t.At m id ∧ ∃ x', t.sem id = some x' ∧ x'.linked = true) : Entries t where
  linked i name m hi := by
    rw [Fs.Entry, hdents] at hi
    obtain ⟨id, x, hat, hx, hflag⟩ := he.linked i name m hi
    obtain ⟨hat', x', hx', hflag'⟩ := hkeep m id x hat hx hflag
    exact ⟨id, x', hat', hx', hflag'⟩
  names i j name m m' hi hj := by
    rw [Fs.Entry, hdents] at hi hj
    exact he.names i j name m m' hi hj
  numbers i j name name' m hi hj := by
    rw [Fs.Entry, hdents] at hi hj
    exact he.numbers i j name name' m hi hj

/-- The directory after `semfs_getvnode`. -/
theorem Entries.got (he : Entries s) {v : VnId} (hgot : Got s n v t) : Entries t := by
  refine he.keep hgot.dents fun m id x hat hx hflag => ?_
  obtain ⟨x', hx', heq⟩ := hgot.linked id x hx
  exact ⟨by rwa [Fs.At, hgot.sems], x', hx', heq.trans hflag⟩

theorem gives_creat {excl : Bool} {P : Option Errno × Option VnId → Fs → Prop} (hs : Tables s)
    (he : Entries s)
    (hfail : ∀ e t, ¬ s.DirentFails name → Same s t →
      t.dents.elems = s.dents.elems ∨ s.VnodeFails name → P (some e, none) t)
    (hlost : ∀ t, s.DirentFails name → Same s t → t.dents = s.dents → P (none, none) t)
    (hdone : ∀ v t, ¬ s.DirentFails name → Created s name v t → P (none, some v) t) :
    Gives ok (creat name excl) P s := by
  rw [creat, gives_ite]
  refine ⟨fun hdots => ?_, fun hdots => ?_⟩
  · have hno : ¬ s.DirentFails name := fun h => absurd hdots (ne_true_of_eq_false h.dots)
    exact (gives_pure _).2 (hfail _ _ hno (Same.refl s) (.inl rfl))
  rw [gives_bind, gives_get]
  cases hfind : findDent name s.dents.elems with
  | none => exact gives_creatNew hs he ⟨by simpa using hdots, hfind⟩ hfail hlost hdone
  | some found =>
      obtain ⟨i, n⟩ := found
      have hno : ¬ s.DirentFails name := fun h => Option.some_ne_none (i, n) (hfind.symm.trans h.missing)
      have hentry : s.Entry i name n := findDent_eq_some hfind
      obtain ⟨id, x, hat, hx, hflag⟩ := he.linked i name n hentry
      dsimp only
      rw [gives_ite]
      refine ⟨fun _ => (gives_pure _).2 (hfail _ _ hno (Same.refl s) (.inl rfl)), fun _ => ?_⟩
      refine gives_getvnode hs (.inr ⟨id, hat⟩) (fun k _ => hfail _ _ hno (same_tick s k) (.inl rfl))
        fun v t hgot => hdone v t hno ?_
      have hentries := he.got hgot
      have hentry' : t.Entry i name n := by
        rw [Fs.Entry, hgot.dents]
        exact hentry
      obtain ⟨x', hx', heq⟩ := hgot.linked id x hx
      exact
        { tables := hgot.tables
          entries := hentries
          done := ⟨v, n, i, id, x', rfl, hgot.vnode.1, hgot.vnode.2, hentry',
            fun j m hj => hentries.names j i name m n hj hentry', by rwa [Fs.At, hgot.sems], hx',
            heq.trans hflag⟩
          dents := .inl hgot.dents }

end Creat

/-! ## The other operations -/

section Operations

variable {ok : Panic → Prop} {s t : Fs} {n : Nat} {v : VnId} {d : Vnode} {name : Name}

/-- No vnode has the number of a semaphore that says it has none. -/
theorem Tables.no_vnode (hs : Tables s) {id : SemId} {x : Sem} (hat : s.At n id)
    (hx : s.sem id = some x) (hflag : x.hasvnode = false) :
    ∀ v ∈ s.vnodes.elems, ∀ d, s.vn v = some d → d.semnum ≠ n := by
  rintro v hv d hd rfl
  obtain ⟨-, d', hd', hnum⟩ := hs.vnode v hv
  obtain rfl : d = d' := Option.some.inj (hd.symm.trans hd')
  obtain ⟨j, y, hj, hy, hflag'⟩ := hnum.resolve_left (hs.ne_rootdir hat)
  obtain rfl : j = id := Option.some.inj (Option.some.inj (Eq.trans (Eq.symm hj) hat))
  obtain rfl : y = x := Option.some.inj (hy.symm.trans hx)
  exact absurd hflag' (ne_true_of_eq_false hflag)

/-- A semaphore without a vnode is destroyed. -/
theorem Tables.drop (hs : Tables s) {id : SemId} (hat : s.At n id)
    (hnone : ∀ v ∈ s.vnodes.elems, ∀ d, s.vn v = some d → d.semnum ≠ n) :
    Tables { s with
      sems := { s.sems with elems := s.sems.elems.set n none }
      sem := Function.update s.sem id none } := by
  have hsem : ∀ m j, m ≠ n → s.At m j → Function.update s.sem id none j = s.sem j :=
    fun m j hne hm => Function.update_of_ne (by
      rintro rfl
      exact hne (hs.ids m n j hm hat)) _ _
  exact
    { live := fun m j hm => by
        obtain ⟨hne, hm⟩ := getElem?_set_none.1 hm
        obtain ⟨hlt, x, hx⟩ := hs.live m j hm
        exact ⟨hlt, x, (hsem m j hne hm).trans hx⟩
      ids := fun m m' j hm hm' =>
        hs.ids m m' j (getElem?_set_none.1 hm).2 (getElem?_set_none.1 hm').2
      vnode := fun v hv => by
        obtain ⟨hlt, d, hd, hnum⟩ := hs.vnode v hv
        refine ⟨hlt, d, hd, hnum.imp_right ?_⟩
        rintro ⟨j, x, hj, hx, hflag⟩
        have hne : d.semnum ≠ n := hnone v hv d hd
        exact ⟨j, x, getElem?_set_none.2 ⟨hne, hj⟩, (hsem _ j hne hj).trans hx, hflag⟩
      hasvnode := fun m j x hm hx hflag => by
        obtain ⟨hne, hm⟩ := getElem?_set_none.1 hm
        exact hs.hasvnode m j x hm ((hsem m j hne hm).symm.trans hx) hflag
      once := hs.once
      here := hs.here
      nodup := hs.nodup
      short := by
        rw [List.length_set]
        exact hs.short }

/-- A vnode is taken out of the table and freed. -/
theorem Tables.forget (hs : Tables s) {sem' : SemId → Option Sem} (hd : s.vn v = some d)
    (hsem : ∀ m j x, s.At m j → s.sem j = some x → ∃ x', sem' j = some x' ∧
      (x'.hasvnode = true ↔ x.hasvnode = true ∧ m ≠ d.semnum)) :
    Tables { s with
      vnodes := { s.vnodes with elems := s.vnodes.elems.erase v }
      vn := Function.update s.vn v none
      sem := sem' } := by
  have hmem : ∀ w, w ∈ s.vnodes.elems.erase v ↔ w ≠ v ∧ w ∈ s.vnodes.elems := fun w =>
    hs.nodup.mem_erase_iff
  have hvn : ∀ w, w ≠ v → Function.update s.vn v none w = s.vn w := fun w hw =>
    Function.update_of_ne hw _ _
  have hother : ∀ w ∈ s.vnodes.elems, w ≠ v → ∀ e, s.vn w = some e → e.semnum ≠ d.semnum :=
    fun w hw hne e he hnum => hne (hs.once w hw v (hs.here v d hd) e d he hd hnum)
  exact
    { live := fun m j hm => by
        obtain ⟨hlt, x, hx⟩ := hs.live m j hm
        obtain ⟨x', hx', -⟩ := hsem m j x hm hx
        exact ⟨hlt, x', hx'⟩
      ids := hs.ids
      vnode := fun w hw => by
        obtain ⟨hne, hw⟩ := (hmem w).1 hw
        obtain ⟨hlt, e, he, hnum⟩ := hs.vnode w hw
        refine ⟨hlt, e, (hvn w hne).trans he, hnum.imp_right ?_⟩
        rintro ⟨j, x, hj, hx, hflag⟩
        obtain ⟨x', hx', hiff⟩ := hsem _ j x hj hx
        exact ⟨j, x', hj, hx', hiff.2 ⟨hflag, hother w hw hne e he⟩⟩
      hasvnode := fun m j x' hm hx' hflag => by
        obtain ⟨-, x, hx⟩ := hs.live m j hm
        obtain ⟨y, hy, hiff⟩ := hsem m j x hm hx
        obtain rfl : y = x' := Option.some.inj (hy.symm.trans hx')
        obtain ⟨hflag, hne⟩ := hiff.1 hflag
        obtain ⟨w, hw, e, he, hnum⟩ := hs.hasvnode m j x hm hx hflag
        have hwv : w ≠ v := by
          rintro rfl
          obtain rfl := Option.some.inj (hd.symm.trans he)
          exact hne hnum.symm
        exact ⟨w, (hmem w).2 ⟨hwv, hw⟩, e, (hvn w hwv).trans he, hnum⟩
      once := fun w hw w' hw' e e' he he' hnum => by
        obtain ⟨hne, hw⟩ := (hmem w).1 hw
        obtain ⟨hne', hw'⟩ := (hmem w').1 hw'
        exact hs.once w hw w' hw' e e' ((hvn w hne).symm.trans he) ((hvn w' hne').symm.trans he') hnum
      here := fun w e he => by
        have hne : w ≠ v := by
          rintro rfl
          exact Option.some_ne_none e (he.symm.trans (Function.update_self ..))
        exact (hmem w).2 ⟨hne, hs.here w e ((hvn w hne).symm.trans he)⟩
      nodup := hs.nodup.erase v
      short := hs.short }

/-- `semfs_reclaim` of a live vnode. -/
theorem gives_reclaim (hs : Tables s) (he : Entries s) (hd : s.vn v = some d) :
    Gives ok (reclaim v d) (fun _ t => Tables t ∧ Entries t ∧ t.dents = s.dents) s := by
  rw [reclaim, gives_bind, gives_modify, gives_ite]
  refine ⟨fun hroot => ?_, fun hroot => ?_⟩
  · rw [setVnode, gives_modify]
    refine ⟨hs.forget hd fun m j x hm hx => ⟨x, hx, ?_⟩, he.keep rfl fun m id x hat hx hflag =>
      ⟨hat, x, hx, hflag⟩, rfl⟩
    have hne : m ≠ d.semnum := fun heq => hs.ne_rootdir hm (heq.trans hroot)
    simp [hne]
  · obtain ⟨-, d', hd', hnum⟩ := hs.vnode v (hs.here v d hd)
    obtain rfl : d = d' := Option.some.inj (hd.symm.trans hd')
    obtain ⟨id, x, hat, hx, hflag⟩ := hnum.resolve_left hroot
    have hself := Function.update_self id (some { x with hasvnode := false }) s.sem
    have hne : ∀ m j, s.At m j → m ≠ d.semnum → j ≠ id := fun m j hm hne => by
      rintro rfl
      exact hne (hs.ids m _ j hm hat)
    have hsem : ∀ m j y, s.At m j → s.sem j = some y →
        ∃ y', Function.update s.sem id (some { x with hasvnode := false }) j = some y' ∧
          (y'.hasvnode = true ↔ y.hasvnode = true ∧ m ≠ d.semnum) := fun m j y hm hy => by
      by_cases hm' : m = d.semnum
      · subst hm'
        obtain rfl : j = id := Option.some.inj (Option.some.inj (Eq.trans (Eq.symm hm) hat))
        exact ⟨_, hself, by simp⟩
      · exact ⟨y, (Function.update_of_ne (hne m j hm hm') _ _).trans hy, by simp [hm']⟩
    have htables := hs.forget hd hsem
    rw [gives_bind]
    refine gives_getsembynum hat hx ?_
    dsimp only
    rw [gives_ite]
    refine ⟨fun _ => ?_, fun h => absurd hflag h⟩
    rw [gives_bind, setSem, gives_modify, gives_ite]
    refine ⟨fun hlinked => ?_, fun hlinked => ?_⟩
    · rw [setVnode, gives_modify]
      refine ⟨htables, he.keep rfl fun m j y hm hy hflag' => ⟨hm, ?_⟩, rfl⟩
      by_cases hj : j = id
      · subst hj
        exact ⟨_, hself, hlinked⟩
      · exact ⟨y, (Function.update_of_ne hj _ _).trans hy, hflag'⟩
    · simp only [gives_bind, gives_modify, setVnode, semarraySet, semDestroy]
      refine ⟨htables.drop hat ?_, he.keep rfl fun m j y hm hy hflag' => ?_, trivial⟩
      · exact htables.no_vnode hat hself rfl
      · have hne' : m ≠ d.semnum := by
          rintro rfl
          obtain rfl : j = id := Option.some.inj (Option.some.inj (Eq.trans (Eq.symm hm) hat))
          obtain rfl := Option.some.inj (hx.symm.trans hy)
          exact hlinked hflag'
        have hj := hne m j hm hne'
        exact ⟨getElem?_set_none.2 ⟨hne', hm⟩, y, (Function.update_of_ne hj _ _).trans
          ((Function.update_of_ne hj _ _).trans hy), hflag'⟩

/-- The directory without an entry, whose semaphore may have gone. -/
theorem Entries.remove (he : Entries s) {i : Nat} (hi : s.Entry i name n)
    (hdents : t.dents.elems = s.dents.elems.set i none)
    (hkeep : ∀ m id x, m ≠ n → s.At m id → s.sem id = some x → t.At m id ∧ t.sem id = some x) :
    Entries t := by
  have hiff : ∀ j name' m, t.Entry j name' m ↔ j ≠ i ∧ s.Entry j name' m := fun j name' m => by
    rw [Fs.Entry, hdents]
    exact getElem?_set_none
  exact
    { linked := fun j name' m hj => by
        obtain ⟨hne, hj⟩ := (hiff ..).1 hj
        obtain ⟨id, x, hat, hx, hflag⟩ := he.linked j name' m hj
        have hm : m ≠ n := by
          rintro rfl
          exact hne (he.numbers j i name' name m hj hi)
        obtain ⟨hat', hx'⟩ := hkeep m id x hm hat hx
        exact ⟨id, x, hat', hx', hflag⟩
      names := fun j k name' m m' hj hk =>
        he.names j k name' m m' ((hiff ..).1 hj).2 ((hiff ..).1 hk).2
      numbers := fun j k name₁ name₂ m hj hk =>
        he.numbers j k name₁ name₂ m ((hiff ..).1 hj).2 ((hiff ..).1 hk).2 }

/-- The tables do not depend on the directory. -/
theorem Tables.dents (hs : Tables s) (a : Arr (Option (Name × Nat))) :
    Tables { s with dents := a } :=
  ⟨hs.live, hs.ids, hs.vnode, hs.hasvnode, hs.once, hs.here, hs.nodup, hs.short⟩

theorem gives_remove (hs : Tables s) (he : Entries s) {P : Option Errno → Fs → Prop}
    (hfail : ∀ e, P (some e) s)
    (hdone : ∀ i n t, isDots name = false → s.Entry i name n → Tables t → Entries t →
      t.dents.elems = s.dents.elems.set i none → P none t) :
    Gives ok (remove name) P s := by
  rw [remove, gives_ite]
  refine ⟨fun _ => (gives_pure _).2 (hfail _), fun hdots => ?_⟩
  rw [gives_bind, gives_get]
  cases hfind : findDent name s.dents.elems with
  | none => exact (gives_pure _).2 (hfail _)
  | some found =>
      obtain ⟨i, n⟩ := found
      have hentry : s.Entry i name n := findDent_eq_some hfind
      obtain ⟨id, x, hat, hx, hflag⟩ := he.linked i name n hentry
      have hne : ∀ m j, m ≠ n → s.At m j → j ≠ id := fun m j hne hm => by
        rintro rfl
        exact hne (hs.ids m n j hm hat)
      have hself := Function.update_self id (some { x with linked := false }) s.sem
      have hflags : ({ x with linked := false } : Sem).hasvnode = x.hasvnode := rfl
      have htables := hs.setSem hx hflags
      dsimp only
      rw [gives_bind]
      refine gives_getsembynum hat hx ?_
      dsimp only
      rw [gives_ite]
      refine ⟨fun _ => ?_, fun h => absurd hflag h⟩
      rw [gives_bind, setSem, gives_modify, gives_ite]
      refine ⟨fun _ => ?_, fun hvnode => ?_⟩
      · rw [gives_bind, direntryarraySet, gives_modify, gives_pure]
        refine hdone i n _ (by simpa using hdots) hentry (htables.dents _)
          (he.remove hentry rfl fun m j y hm hj hy => ?_) rfl
        exact ⟨hj, (Function.update_of_ne (hne m j hm hj) _ _).trans hy⟩
      · simp only [gives_bind, gives_modify, gives_pure, direntryarraySet, semarraySet, semDestroy]
        refine hdone i n _ (by simpa using hdots) hentry ((htables.drop hat ?_).dents _)
          (he.remove hentry rfl fun m j y hm hj hy => ?_) rfl
        · exact htables.no_vnode hat hself (by simpa using hvnode)
        · have hj' := hne m j hm hj
          exact ⟨getElem?_set_none.2 ⟨hm, hj⟩, (Function.update_of_ne hj' _ _).trans
            ((Function.update_of_ne hj' _ _).trans hy)⟩

theorem gives_vopIncref (hs : Tables s) (he : Entries s) :
    Gives (fun _ => True) (vopIncref v) (fun _ t => Tables t ∧ Entries t ∧ t.dents = s.dents) s := by
  rw [vopIncref, gives_bind, gives_get]
  cases hd : s.vn v with
  | none => exact (gives_halt _).2 trivial
  | some d =>
      dsimp only
      rw [setVnode, gives_modify]
      exact ⟨hs.setVnode hd rfl, he.keep rfl fun m id x hat hx hflag => ⟨hat, x, hx, hflag⟩, rfl⟩

theorem gives_vopDecref (hs : Tables s) (he : Entries s) :
    Gives (fun _ => True) (vopDecref v) (fun _ t => Tables t ∧ Entries t ∧ t.dents = s.dents) s := by
  rw [vopDecref, gives_bind, gives_get]
  cases hd : s.vn v with
  | none => exact (gives_halt _).2 trivial
  | some d =>
      dsimp only
      rw [gives_ite]
      refine ⟨fun _ => (gives_halt _).2 trivial, fun _ => ?_⟩
      rw [gives_ite]
      refine ⟨fun _ => ?_, fun _ => gives_reclaim hs he hd⟩
      rw [setVnode, gives_modify]
      exact ⟨hs.setVnode hd rfl, he.keep rfl fun m id x hat hx hflag => ⟨hat, x, hx, hflag⟩, rfl⟩

/-- `semfs_getvnode` in `semfs_lookup` and `semfs_getroot`. -/
theorem gives_getvnode_entries (hs : Tables s) (he : Entries s)
    (hn : n = rootdir ∨ ∃ id, s.At n id) :
    Gives ok (getvnode n) (fun _ t => Tables t ∧ Entries t ∧ t.dents = s.dents) s := by
  refine gives_getvnode hs hn (fun k _ => ?_) fun v t hgot => ?_
  · exact ⟨hs.same (same_tick s k), he.same (same_tick s k), rfl⟩
  · exact ⟨hgot.tables, he.got hgot, hgot.dents⟩

theorem gives_lookup (hs : Tables s) (he : Entries s) :
    Gives ok (lookup name) (fun _ t => Tables t ∧ Entries t ∧ t.dents = s.dents) s := by
  rw [lookup, gives_bind, gives_get]
  cases hfind : findDent name s.dents.elems with
  | none => exact (gives_pure _).2 ⟨hs, he, rfl⟩
  | some found =>
      obtain ⟨i, n⟩ := found
      obtain ⟨id, x, hat, -⟩ := he.linked i name n (findDent_eq_some hfind)
      exact gives_getvnode_entries hs he (.inr ⟨id, hat⟩)

end Operations

/-! ## Runs -/

/-- A call, one after the other. -/
inductive Op where
  | creat (name : Name) (excl : Bool)
  | remove (name : Name)
  | lookup (name : Name)
  /-- `semfs_getroot`. -/
  | root
  | incref (v : VnId)
  | decref (v : VnId)
  deriving DecidableEq, Repr

def Op.run : Op → SemCall Unit
  | .creat name excl => do
      let _ ← Directory.creat name excl
      pure ()
  | .remove name => do
      let _ ← Directory.remove name
      pure ()
  | .lookup name => do
      let _ ← Directory.lookup name
      pure ()
  | .root => do
      let _ ← getvnode rootdir
      pure ()
  | .incref v => vopIncref v
  | .decref v => vopDecref v

/-- A call returns. -/
def Step (s : Fs) (o : Op) (t : Fs) : Prop := o.run.result s = .ok (.ok (), t)

/-- `semfs_create`. -/
def created (memory : Nat → Bool) : Fs where
  sems := ⟨[], 0⟩
  vnodes := ⟨[], 0⟩
  dents := ⟨[], 0⟩
  sem _ := none
  vn _ := none
  brk := 0
  memory := memory
  kmallocs := 0

section Runs

variable {s t : Fs} {memory : Nat → Bool}

theorem tables_created : Tables (created memory) where
  live _ _ h := by cases h
  ids _ _ _ h := by cases h
  vnode _ h := by cases h
  hasvnode _ _ _ h := by cases h
  once _ h := by cases h
  here _ _ h := by cases h
  nodup := List.nodup_nil
  short := Nat.zero_le _

theorem entries_created : Entries (created memory) where
  linked _ _ _ h := by cases h
  names _ _ _ _ _ h := by cases h
  numbers _ _ _ _ _ h := by cases h

/-- What a call does to the directory. -/
inductive DirChange (s : Fs) : Op → Fs → Prop where
  | same {o : Op} {t : Fs} : t.dents.elems = s.dents.elems → DirChange s o t
  | failed {name : Name} {excl : Bool} {t : Fs} : s.VnodeFails name → DirChange s (.creat name excl) t
  | added {name : Name} {excl : Bool} {i n : Nat} {t : Fs} : s.Puts name →
      Put s.dents.elems t.dents.elems i (name, n) → DirChange s (.creat name excl) t
  | removed {name : Name} {i n : Nat} {t : Fs} : isDots name = false → s.Entry i name n →
      t.dents.elems = s.dents.elems.set i none → DirChange s (.remove name) t

theorem step_dirChange {o : Op} (hs : Tables s) (he : Entries s) (h : Step s o t) :
    Tables t ∧ Entries t ∧ DirChange s o t := by
  suffices hgives : Gives (fun _ => True) o.run
      (fun _ t => Tables t ∧ Entries t ∧ DirChange s o t) s by
    obtain ⟨a, -, ha⟩ := hgives.returns h
    exact ha
  have hsame : ∀ t, Tables t ∧ Entries t ∧ t.dents = s.dents →
      Tables t ∧ Entries t ∧ DirChange s o t := fun t ht =>
    ⟨ht.1, ht.2.1, .same (congrArg Arr.elems ht.2.2)⟩
  cases o with
  | creat name excl =>
      rw [Op.run, gives_bind]
      refine gives_creat hs he (fun e t _ ht hdents => ?_) (fun t _ ht hdents => ?_)
        fun v t _ ht => ?_
      · refine (gives_pure _).2 ⟨hs.same ht, he.same ht, ?_⟩
        rcases hdents with hdents | hfails
        · exact .same hdents
        · exact .failed hfails
      · exact (gives_pure _).2 (hsame t ⟨hs.same ht, he.same ht, hdents⟩)
      · refine (gives_pure _).2 ⟨ht.tables, ht.entries, ?_⟩
        rcases ht.dents with hdents | ⟨hputs, i, n, hput⟩
        · exact .same (congrArg Arr.elems hdents)
        · exact .added hputs hput
  | remove name =>
      rw [Op.run, gives_bind]
      refine gives_remove hs he (fun e => ?_) fun i n t hdots hi ht ht' hdents => ?_
      · exact (gives_pure _).2 (hsame s ⟨hs, he, rfl⟩)
      · exact (gives_pure _).2 ⟨ht, ht', .removed hdots hi hdents⟩
  | lookup name =>
      rw [Op.run, gives_bind]
      exact gives_mono (gives_lookup hs he) fun _ t ht => (gives_pure _).2 (hsame t ht)
  | root =>
      rw [Op.run, gives_bind]
      exact gives_mono (gives_getvnode_entries hs he (.inl rfl)) fun _ t ht =>
        (gives_pure _).2 (hsame t ht)
  | incref v => exact gives_mono (gives_vopIncref hs he) fun _ t ht => hsame t ht
  | decref v => exact gives_mono (gives_vopDecref hs he) fun _ t ht => hsame t ht

/-- The invariants, in every run. -/
theorem tables_entries {ok : Fs → Op → Prop} (h : Reach Step ok (created memory) s) :
    Tables s ∧ Entries s := by
  refine h.invariant (I := fun s => Tables s ∧ Entries s) (fun s o t hs _ hstep => ?_)
    ⟨tables_created, entries_created⟩
  obtain ⟨ht, ht', -⟩ := step_dirChange hs.1 hs.2 hstep
  exact ⟨ht, ht'⟩

/-- `semfs_creat` is all or nothing unless `semfs_direntry_create` fails. -/
theorem creat_allOrNothing_iff (h : Reach Step anyStep (created memory) s) (name : Name)
    (excl : Bool) :
    (∃ r t, (creat name excl).result s = .ok (.ok r, t) ∧ AllOrNothing s name r t) ↔
      ¬ s.DirentFails name := by
  obtain ⟨hs, he⟩ := tables_entries h
  have hgives : Gives (fun _ => False) (creat name excl) (fun r t =>
      s.DirentFails name ∧ r = (none, none) ∨ ¬ s.DirentFails name ∧ AllOrNothing s name r t) s := by
    refine gives_creat hs he (fun e t hno ht _ => .inr ⟨hno, ht⟩) (fun t hfails _ _ => ?_)
      fun v t hno ht => .inr ⟨hno, ht.done⟩
    exact .inl ⟨hfails, rfl⟩
  obtain ⟨_, t, hresult, r, rfl, hrt⟩ := wp.exists_result hgives
  constructor
  · rintro ⟨r', t', hresult', hdone⟩ hfails
    cases hresult.symm.trans hresult'
    rcases hrt with ⟨-, rfl⟩ | ⟨hno, -⟩
    · obtain ⟨v, -, -, -, -, hv, -⟩ := hdone
      cases hv
    · exact hno hfails
  · intro hno
    rcases hrt with ⟨hfails, -⟩ | ⟨-, hdone⟩
    · exact absurd hfails hno
    · exact ⟨r, t, hresult, hdone⟩

end Runs

/-- The first semaphore. -/
theorem creat_allOrNothing_first : ∃ r t,
    (creat [97] true).result (created fun _ => true) = .ok (.ok r, t) ∧
      AllOrNothing (created fun _ => true) [97] r t :=
  (creat_allOrNothing_iff .refl [97] true).2 fun h => h.fails ⟨rfl, rfl⟩

/-- No memory for the directory entry: `semfs_creat` returns `0` and stores no vnode. -/
theorem creat_loses_error :
    (∃ t, (creat [97] false).result (created fun k => k != 4) = .ok (.ok (none, none), t)) ∧
      ¬ ∃ r t, (creat [97] false).result (created fun k => k != 4) = .ok (.ok r, t) ∧
        AllOrNothing (created fun k => k != 4) [97] r t := by
  have hlost : ∃ t,
      (creat [97] false).result (created fun k => k != 4) = .ok (.ok (none, none), t) := ⟨_, rfl⟩
  refine ⟨hlost, ?_⟩
  rintro ⟨r, t, hresult, hdone⟩
  obtain ⟨t', hresult'⟩ := hlost
  cases hresult.symm.trans hresult'
  obtain ⟨v, -, -, -, -, hv, -⟩ := hdone
  cases hv

end Os161.Semfs.Directory
