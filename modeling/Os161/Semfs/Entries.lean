import Os161.Semfs.Roles

set_option autoImplicit false

/-!
# Directory entries and semaphores

Only a thread with `semfs_dirlock` changes the directory, and while it makes or removes an entry the
entry and the flag `sems_linked` may disagree. Every other entry names a semaphore that is in the
table and linked (`Dirs`), so `semfs_remove` finds a linked semaphore.
-/

namespace Os161.Semfs.Objects

open Os161.Lib.Monitor

variable {τ : Type}

/-- What a point says about the directory. -/
structure DirView where
  /-- The entry that the thread makes or removes. -/
  slot : Option Nat := none
  /-- An entry that would have this number. -/
  filed : Option (Nat × Nat) := none
  /-- An entry that would have the number of this vnode. -/
  filedVn : Option (Nat × VnId) := none
  /-- An entry with its number. -/
  entry : Option (Nat × Nat) := none
  /-- The number of a linked semaphore. -/
  found : Option Nat := none
  /-- Where to put a new entry. -/
  empty : Option Nat := none

def Point.dirView : Point → DirView
  | .getvnode (.created _ _ slot _) n _ => { slot := some slot, filed := some (slot, n) }
  | .creat _ _ (.link slot _ v) => { slot := some slot, filedVn := some (slot, v) }
  | .creat _ _ (.undir slot _ _) => { slot := some slot }
  | .creat _ _ (.create empty) | .creat _ _ (.insertEnter empty _) | .creat _ _ (.insert empty _)
  | .creat _ _ (.inserted empty _ _) | .creat _ _ (.dirent empty _ _) => { empty := some empty }
  | .getsem (.remove _ i) n (.got _) => { entry := some (i, n) }
  | .getsem (.remove _ i) n _ => { entry := some (i, n), found := some n }
  | .remove _ (.lock i n _) | .remove _ (.unlink i n _) => { entry := some (i, n) }
  | .remove _ (.test i _ _) | .remove _ (.unlock i _) | .remove _ (.clearEnter i _ _)
  | .remove _ (.clear i _ _) | .remove _ (.cleared i _) | .remove _ (.free i _)
  | .remove _ (.destroy i _) | .remove _ (.dent i) => { slot := some i }
  | _ => {}

/-- The number `n` is the number of a linked semaphore. -/
def Fs.Linked (x : Fs τ) (n : Nat) : Prop := ∃ id, x.At n id ∧ x.linked id = true

/-- What a thread knows about the directory. -/
structure DirKnows (x : Fs τ) (p : DirView) : Prop where
  filed : ∀ i n, p.filed = some (i, n) → ∀ a m, x.dents[i]? = some (some (a, m)) → m = n
  filedVn : ∀ i v, p.filedVn = some (i, v) → ∀ a m, x.dents[i]? = some (some (a, m)) →
    x.Semnum v m
  entry : ∀ i n, p.entry = some (i, n) → ∃ a, x.dents[i]? = some (some (a, n))
  found : ∀ n, p.found = some n → x.Linked n
  empty : ∀ i, p.empty = some i → i ≤ x.dents.length

/-- The directory and the semaphores agree. -/
structure Dirs (x : Fs τ) (pts : τ → Point) : Prop where
  distinct : ∀ (i j : Nat) (a b : String) (n : Nat), x.dents[i]? = some (some (a, n)) → x.dents[j]? = some (some (b, n)) →
    i = j
  entries : ∀ (i : Nat) (a : String) (n : Nat), x.dents[i]? = some (some (a, n)) →
    x.Linked n ∨ ∃ t, (pts t).dirView.slot = some i
  knows : ∀ t, DirKnows x (pts t).dirView

theorem dirKnows_slot (x : Fs τ) (i : Option Nat) : DirKnows x { slot := i } :=
  ⟨nofun, nofun, nofun, nofun, nofun⟩

theorem dirKnows_empty (x : Fs τ) : DirKnows x {} := dirKnows_slot x none

theorem dirs_init : Dirs (semfsCreate τ) (fun _ => .out) where
  distinct _ _ _ _ _ h := by simp [semfsCreate] at h
  entries _ _ _ h := by simp [semfsCreate] at h
  knows _ := dirKnows_empty _

variable {x x' : Fs τ} {pts : τ → Point} {t u : τ} {p k : Point}

/-- A thread without `semfs_dirlock` knows nothing about the directory. -/
theorem dirView_eq (h : k.locked .dir = false) : k.dirView = {} := by
  unfold Point.dirView
  split <;> first | rfl | (simp [Point.locked, GetsemCaller.locked] at h; done) | skip
  · rename_i p
    cases p <;> simp [Point.locked, GetvnodeCaller.locked] at h
  · rename_i p _
    cases p <;> simp [Point.locked, GetsemCaller.locked] at h

/-- What everybody else knows while `t` has `semfs_dirlock`. -/
theorem dirView_of_ne (hex : Exclusive pts) (ht : (pts t).locked .dir = true) (hu : u ≠ t) :
    (pts u).dirView = {} := by
  apply dirView_eq
  rw [← Bool.not_eq_true]
  exact fun h => hu (hex.dir u t h ht)

theorem Dirs.own (h : Dirs x pts) (hex : Exclusive pts) (ht : (pts t).locked .dir = true)
    {i n : Nat} {a : String} (hi : x.dents[i]? = some (some (a, n))) :
    x.Linked n ∨ (pts t).dirView.slot = some i := by
  refine (h.entries i a n hi).imp_right fun ⟨u, hu⟩ => ?_
  by_cases hut : u = t
  · rwa [hut] at hu
  · rw [dirView_of_ne hex ht hut] at hu
    cases hu

variable [DecidableEq τ]

/-- The directory is the same, and what is linked stays linked. -/
structure SameDir (x x' : Fs τ) : Prop where
  dents : x'.dents = x.dents
  linked : ∀ n, x.Linked n → x'.Linked n
  numbered : Numbered x x'

omit [DecidableEq τ] in
theorem DirKnows.same {w : DirView} (h : DirKnows x w) (hx : SameDir x x') : DirKnows x' w where
  filed := by
    rw [hx.dents]
    exact h.filed
  filedVn i v hw a m hm := by
    rw [hx.dents] at hm
    exact hx.numbered v m (h.filedVn i v hw a m hm)
  entry := by
    rw [hx.dents]
    exact h.entry
  found n hn := hx.linked n (h.found n hn)
  empty := by
    rw [hx.dents]
    exact h.empty

theorem Dirs.idle (h : Dirs x pts) (hx : SameDir x x')
    (hslot : p.dirView.slot = (pts t).dirView.slot) (hself : DirKnows x p.dirView) :
    Dirs x' (Function.update pts t p) where
  distinct := by
    rw [hx.dents]
    exact h.distinct
  entries i a n hi := by
    rw [hx.dents] at hi
    refine (h.entries i a n hi).imp (hx.linked n) fun ⟨u, hu⟩ => ⟨u, ?_⟩
    by_cases hut : u = t
    · subst hut
      rw [Function.update_self, hslot]
      exact hu
    · rwa [Function.update_of_ne hut]
  knows u := by
    by_cases hut : u = t
    · rw [hut, Function.update_self]
      exact hself.same hx
    · rw [Function.update_of_ne hut]
      exact (h.knows u).same hx

/-- A step of the thread that has `semfs_dirlock`. -/
theorem Dirs.change (hex : Exclusive pts) (ht : (pts t).locked .dir = true)
    (hdistinct : ∀ (i j : Nat) (a b : String) (n : Nat), x'.dents[i]? = some (some (a, n)) →
      x'.dents[j]? = some (some (b, n)) → i = j)
    (hentries : ∀ (i : Nat) (a : String) (n : Nat), x'.dents[i]? = some (some (a, n)) →
      x'.Linked n ∨ p.dirView.slot = some i)
    (hself : DirKnows x' p.dirView) : Dirs x' (Function.update pts t p) where
  distinct := hdistinct
  entries i a n hi := by
    refine (hentries i a n hi).imp_right fun hp => ⟨t, ?_⟩
    rwa [Function.update_self]
  knows u := by
    by_cases hut : u = t
    · rw [hut, Function.update_self]
      exact hself
    · rw [Function.update_of_ne hut, dirView_of_ne hex ht hut]
      exact dirKnows_empty x'

/-! ## Changes of entries -/

omit [DecidableEq τ] in
theorem dents_addDent {i : Nat} (hi : i ≤ x.dents.length) (e : String × Nat) (j : Nat) :
    (x.addDent i e).dents[j]? = if j = i then some (some e) else x.dents[j]? :=
  getElem?_place hi e j

omit [DecidableEq τ] in
theorem dents_clearDent {i j : Nat} {e : String × Nat}
    (h : (x.clearDent i).dents[j]? = some (some e)) : j ≠ i ∧ x.dents[j]? = some (some e) := by
  unfold Fs.clearDent at h
  simp only [List.getElem?_set] at h
  by_cases hj : i = j
  · simp [hj] at h
  · exact ⟨Ne.symm hj, by simpa [hj] using h⟩

/-- An entry is taken out. -/
theorem Dirs.clearDent (h : Dirs x pts) (hex : Exclusive pts) (ht : (pts t).locked .dir = true)
    {i : Nat} (hslot : (pts t).dirView.slot = some i) (hp : p.dirView = {}) :
    Dirs (x.clearDent i) (Function.update pts t p) := by
  apply Dirs.change hex ht
  · intro j j' a b n hj hj'
    exact h.distinct j j' a b n (dents_clearDent hj).2 (dents_clearDent hj').2
  · intro j a n hj
    obtain ⟨hne, hj⟩ := dents_clearDent hj
    refine .inl ((h.own hex ht hj).resolve_right fun he => ?_)
    rw [hslot] at he
    exact hne (Option.some.inj he).symm
  · rw [hp]
    exact dirKnows_empty _

omit [DecidableEq τ] in
theorem linked_of_at {x x' : Fs τ} (hat : ∀ n id, x.At n id → x.linked id = true → x'.At n id)
    (hlinked : ∀ id, x.linked id = true → x'.linked id = true) (n : Nat) (h : x.Linked n) :
    x'.Linked n := by
  obtain ⟨id, hid, hl⟩ := h
  exact ⟨id, hat n id hid hl, hlinked id hl⟩

omit [DecidableEq τ] in
/-- A semaphore that is not linked is taken from the table. -/
theorem sameDir_remove {n : Nat} {id : SemId} (hat : x.At n id) (hlinked : x.linked id = false) :
    SameDir x (x.remove t n id) := by
  refine ⟨rfl, linked_of_at (fun m id' hm hl => ?_) (fun _ hl => hl), fun _ _ hv => hv⟩
  rw [at_remove]
  refine ⟨hm, ?_⟩
  rintro rfl
  rw [hm.unique hat] at hl
  exact absurd (hlinked.symm.trans hl) (by simp)

omit [DecidableEq τ] in
theorem numbered_addVnode {v : VnId} (hv : x.vn v = none) (t : τ) (n : Nat) :
    Numbered x (x.addVnode t v n) := fun w m hw => (semnum_addVnode hv w m).2 (.inr hw)

/-- What every thread knows in its role. -/
def Roles (x : Fs τ) (pts : τ → Point) : Prop :=
  ∀ u id r, (pts u).role = some (id, r) → Holds x u id r

omit [DecidableEq τ] in
theorem linked_eq {id : SemId} {d : Sem} (hd : x.sem id = some d) : x.linked id = d.linked := by
  simp [Fs.linked, hd]

omit [DecidableEq τ] in
theorem has_eq {id : SemId} {d : Sem} (hd : x.sem id = some d) : x.has id = d.hasvnode := by
  simp [Fs.has, hd]

omit [DecidableEq τ] in
theorem SameTable.sameDir (h : SameTable x x') (hdents : x'.dents = x.dents) : SameDir x x' := by
  refine ⟨hdents, linked_of_at (fun n id hat _ => ?_) (fun id hl => ?_), h.numbered⟩
  · exact ((h.sameSem id).at_iff n).2 hat
  · rwa [(h.sameSem id).linked]

omit [DecidableEq τ] in
theorem sameDir_removeVnode (v : VnId) : SameDir x (x.removeVnode v) :=
  ⟨rfl, fun _ h => h, fun _ _ h => h⟩

omit [DecidableEq τ] in
theorem sameDir_setHasvnode {y : Fs τ} (hy : SameDir x y) (id : SemId) (b : Bool) :
    SameDir x (y.setHasvnode id b) := by
  refine ⟨hy.dents, fun n hn => ?_, hy.numbered⟩
  obtain ⟨id', hat, hl⟩ := hy.linked n hn
  exact ⟨id', hat, by rwa [linked_setHasvnode]⟩

omit [DecidableEq τ] in
/-- The entry that has been found. -/
theorem dents_of_findDent {dents : List (Option (String × Nat))} {name : String} {i n : Nat}
    (h : findDent dents name = some (i, n)) : ∃ a, dents[i]? = some (some (a, n)) := by
  simp only [findDent] at h
  split at h
  · rename_i a m he
    cases h
    exact ⟨a, he⟩
  · cases h

theorem Dirs.runs (h : Dirs x pts) (htab : Table x) (hroles : Roles x pts) (hex : Exclusive pts)
    (hr : Runs t (pts t) x p x') : Dirs x' (Function.update pts t p) := by
  have hknows := h.knows t
  have hself := hroles t
  generalize hp : pts t = k at hr hknows hself
  have hsame : SameDir x x := ⟨rfl, fun _ h => h, fun _ _ h => h⟩
  have hslot : (pts t).dirView.slot = k.dirView.slot := by rw [hp]
  have hdir : k.locked .dir = true → (pts t).locked .dir = true := by
    rw [hp]
    exact id
  have hnone := dirKnows_empty x
  cases hr with
  | callUse | callDecref => exact h.idle ((sameTable_take t _).sameDir rfl) hslot.symm hnone
  | vopIncref =>
    exact h.idle ((sameTable_setRefcount (sameTable_copy _) _ _).sameDir rfl) hslot.symm hnone
  | decref | busy | vnodeDestroy =>
    exact h.idle ((sameTable_setRefcount (sameTable_drop t _) _ _).sameDir rfl) hslot.symm hnone
  | creatNew hfind =>
    refine h.idle hsame hslot.symm { dirKnows_empty _ with empty := fun i hi => ?_ }
    cases hi
    exact List.idxOf_le_length
  | createFails | direntFails | isLinked => exact h.idle hsame hslot.symm hnone
  | @create _ name excl empty id hid =>
    refine h.idle ⟨rfl, linked_of_at (fun _ _ hat _ => hat) fun id' hl => ?_, fun _ _ hv => hv⟩
      hslot.symm { dirKnows_empty _ with empty := hknows.empty }
    have hne : id' ≠ id := by
      rintro rfl
      simp [Fs.linked, hid] at hl
    rwa [(create_same hne).linked]
  | insertFails => exact h.idle hsame hslot.symm hnone
  | insert hsize =>
    refine h.idle ⟨rfl, linked_of_at (fun n id hat _ => ?_) fun _ hl => hl, fun _ _ hv => hv⟩
      hslot.symm { dirKnows_empty _ with empty := hknows.empty }
    exact (at_insert n id).2 (.inl hat)
  | @dirent _ name excl empty n id =>
    obtain ⟨hat, hunlinked, -⟩ := hself id (.early n) rfl
    have hempty := hknows.empty empty rfl
    -- no entry has the number of the new semaphore
    have hold : ∀ {j a m}, x.dents[j]? = some (some (a, m)) → x.Linked m := fun hj =>
      (h.own hex (hdir rfl) hj).resolve_right (by rw [hslot]; intro he; cases he)
    have hfresh : ¬ x.Linked n := by
      rintro ⟨id', hat', hlinked⟩
      rw [hat'.unique hat] at hlinked
      exact absurd (hunlinked.symm.trans hlinked) (by simp)
    refine Dirs.change hex (hdir rfl) (fun i j a b m hi hj => ?_) (fun i a m hi => ?_)
      { dirKnows_empty _ with filed := fun i m hi a m' ha => ?_ }
    · rw [dents_addDent hempty] at hi hj
      split at hi <;> split at hj
      · rename_i h₁ h₂
        exact h₁.trans h₂.symm
      · cases hi
        exact absurd (hold hj) hfresh
      · cases hj
        exact absurd (hold hi) hfresh
      · exact h.distinct i j a b m hi hj
    · rw [dents_addDent hempty] at hi
      split at hi
      · rename_i he
        rw [he]
        exact .inr rfl
      · exact .inl (hold hi)
    · cases hi
      rw [dents_addDent hempty, if_pos rfl] at ha
      cases ha
      rfl
  | @link _ name excl slot id v =>
    obtain ⟨n, hat, hv⟩ := hself id (.user v) rfl
    refine Dirs.change hex (hdir rfl) h.distinct (fun i a m hi => .inl ?_) (dirKnows_slot _ _)
    have hlinked := linked_setLinked (b := true) (htab.born hat)
    rcases h.own hex (hdir rfl) hi with ⟨id', hat', hl⟩ | he
    · refine ⟨id', hat', ?_⟩
      by_cases hne : id' = id
      · rwa [hne]
      · rwa [(setLinked_same hne).linked]
    · rw [hslot] at he
      cases he
      -- the entry has the number of the vnode
      obtain ⟨d, hd, hdn⟩ := hv
      obtain ⟨e, he, hem⟩ := hknows.filedVn slot v rfl a m hi
      rw [hd] at he
      cases he
      rw [← hem, hdn]
      exact ⟨id, hat, hlinked⟩
  | undir => exact h.clearDent hex (hdir rfl) hslot rfl
  | @uninsert _ name excl n id =>
    obtain ⟨hat, hunlinked, -⟩ := hself id (.early n) rfl
    exact h.idle (sameDir_remove hat hunlinked) hslot.symm (dirKnows_slot _ _)
  | @removeFound _ name i n hfind =>
    obtain ⟨a, ha⟩ := dents_of_findDent hfind
    have hlinked := (h.own hex (hdir rfl) ha).resolve_right (by rw [hslot]; intro he; cases he)
    refine h.idle hsame hslot.symm
      { dirKnows_empty _ with entry := fun j m hj => ?_, found := fun m hm => ?_ }
    · cases hj
      exact ⟨a, ha⟩
    · cases hm
      exact hlinked
  | @unlink _ name i n id d hd hlinked =>
    obtain ⟨hat, -⟩ := hself id (.entry n) rfl
    obtain ⟨a₀, hentry⟩ := hknows.entry i n rfl
    refine Dirs.change hex (hdir rfl) h.distinct (fun j a m hj => ?_)
      (dirKnows_slot _ _)
    by_cases hm : m = n
    · rw [hm] at hj
      exact .inr (by rw [h.distinct j i a a₀ n hj hentry]; rfl)
    · refine .inl ?_
      obtain ⟨id', hat', hl⟩ := (h.own hex (hdir rfl) hj).resolve_right (by rw [hslot]; intro he; cases he)
      have hne : id' ≠ id := by
        rintro rfl
        exact hm (htab.inj m n id' hat' hat)
      exact ⟨id', hat', by rwa [(setLinked_same hne).linked]⟩
  | @clear _ name i n id =>
    obtain ⟨hat, hunlinked, -⟩ := hself id (.clearing n) rfl
    exact h.idle (sameDir_remove hat hunlinked) hslot.symm (dirKnows_slot _ _)
  | removeDent => exact h.clearDent hex (hdir rfl) hslot rfl
  | @findVnode _ f | @findNone _ f | @makeFails _ f =>
    cases f <;> exact h.idle hsame hslot.symm hknows
  | @getIncref _ f n v d hd =>
    have hhold : SameTable x ((x.hold t v).setRefcount v (d.refcount + 1)) :=
      sameTable_setRefcount (sameTable_hold t v) _ _
    cases f <;> exact h.idle (hhold.sameDir rfl) hslot.symm hknows
  | @makeRoot _ f n v hv hn =>
    cases f <;> exact h.idle ⟨rfl, fun _ h => h, numbered_addVnode hv t n⟩ hslot.symm hknows
  | @make _ f n v id d hv hn hat hd hhas =>
    have hadd : SameDir x (x.addVnode t v n) := ⟨rfl, fun _ h => h, numbered_addVnode hv t n⟩
    cases f <;> exact h.idle (sameDir_setHasvnode hadd id true) hslot.symm hknows
  | @get _ f n id hat =>
    cases f with
    | remove name i =>
      exact h.idle hsame hslot.symm { dirKnows_empty _ with entry := hknows.entry }
    | use v => exact h.idle hsame hslot.symm hknows
  | unhaveRoot => exact h.idle (sameDir_removeVnode _) hslot.symm hnone
  | unhave =>
    exact h.idle (sameDir_setHasvnode (sameDir_removeVnode _) _ false) hslot.symm hnone
  | @isUnlinked _ v d id e hd he hunlinked =>
    obtain ⟨n, ⟨d', hd', hn⟩, hat, -⟩ := hself id (.loaded v) rfl
    rw [hd] at hd'
    cases hd'
    rw [← hn] at hat
    rw [← linked_eq he] at hunlinked
    exact h.idle (sameDir_remove hat hunlinked) hslot.symm hnone
  | uncreate | removeDestroy | reclaimDestroy =>
    exact h.idle ⟨rfl, fun _ h => h, fun _ _ h => h⟩ hslot.symm
      (dirKnows_slot _ _)
  | _ => exact h.idle hsame hslot.symm (dirKnows_slot _ _)

theorem sameTable_effect (t : τ) (r : Req Lk SemId) : SameTable x (effect t x k r) := by
  unfold effect
  split
  · exact sameTable_give t _
  · exact sameTable_give t _
  · exact sameTable_give t _
  · exact ⟨rfl, rfl, rfl, rfl, rfl, rfl, fun _ _ => Iff.rfl⟩

theorem dents_effect (t : τ) (r : Req Lk SemId) : (effect t x k r).dents = x.dents := by
  unfold effect
  split <;> rfl

theorem Dirs.calls (h : Dirs x pts) (hrefs : Refs x pts) {r : Req Lk SemId}
    (hc : Calls (pts t) r p) : Dirs (effect t x (pts t) r) (Function.update pts t p) := by
  have hknows := h.knows t
  have hviews := hrefs.knows t
  have hsame : SameDir x (effect t x (pts t) r) := (sameTable_effect t r).sameDir (dents_effect t r)
  generalize hp : pts t = k at hc hknows hviews hsame
  have hslot : (pts t).dirView.slot = k.dirView.slot := by rw [hp]
  cases hc with
  | getEnter f n => cases f <;> exact h.idle hsame hslot.symm hknows
  | getOk f n v =>
    cases f with
    | root | found => exact h.idle hsame hslot.symm hknows
    | created name excl slot id =>
      refine h.idle hsame hslot.symm ⟨nofun, fun i w hw a m ha => ?_, nofun, nofun, nofun⟩
      cases hw
      rw [hknows.filed slot n rfl a m ha]
      exact hviews.numbered v n rfl
  | getFail f n =>
    cases f with
    | root | found => exact h.idle hsame hslot.symm hknows
    | created name excl slot id =>
      exact h.idle hsame hslot.symm ⟨nofun, nofun, nofun, nofun, nofun⟩
  | semEnter f n => cases f <;> exact h.idle hsame hslot.symm hknows
  | semGot f n id => cases f <;> exact h.idle hsame hslot.symm hknows
  | _ => exact h.idle hsame hslot.symm hknows

end Os161.Semfs.Objects
