import Os161.Semfs.Entries

set_option autoImplicit false

/-!
# When a semaphore is destroyed

`semfs_remove` clears `sems_linked` and then reads `sems_hasvnode`; `semfs_reclaim` clears
`sems_hasvnode` and then reads `sems_linked`. The first has `sems_lock`, the second has
`semfs_tablelock`, and neither takes the lock of the other before it reads. When they overlap,
`semfs_reclaim` destroys a semaphore whose lock `semfs_remove` has. In runs where that does not
happen (`Orderly`), every semaphore is taken from the table and destroyed by one thread, and when
nobody uses it.
-/

namespace Os161.Semfs.Objects

open Os161.Lib.Monitor Os161.Lib.Runs

/-- At `semfs_sem_destroy` in `semfs_reclaim`. -/
def Point.destroys : Point → Option SemId
  | .reclaim _ (.destroy id) => some id
  | _ => none

/-- In `semfs_remove`, between `sems_linked = false` and the release of `sems_lock`. -/
def Point.unlinks : Point → Option SemId
  | .remove _ (.test _ _ id) | .remove _ (.unlock _ id) | .remove _ (.clearEnter _ _ id)
  | .remove _ (.clear _ _ id) | .remove _ (.cleared _ id) | .remove _ (.free _ id) => some id
  | _ => none

/-- About to take the semaphore from the table when it has no vnode. -/
def Point.awaits : Point → Option (Nat × SemId)
  | .remove _ (.test _ n id) | .remove _ (.clearEnter _ n id) => some (n, id)
  | _ => none

/-- About to take a semaphore from the table that has neither an entry nor a vnode. -/
def Point.handles : Point → Option SemId
  | .remove _ (.test _ _ id) => some id
  | p => match p.role with
    | some (id, .early _) | some (id, .orphan) | some (id, .clearing _) | some (id, .loaded _) =>
        some id
    | _ => none

/-- About to destroy a semaphore. -/
def Point.owes (p : Point) : Option SemId :=
  match p.role with
  | some (id, .gone) | some (id, .lost) => some id
  | _ => none

variable {τ : Type} [DecidableEq τ]

/-- What the threads do with the semaphores. -/
structure Sems (x : Fs τ) (pts : τ → Point) : Prop where
  table : Table x
  roles : Roles x pts
  root : ∀ u n q, pts u = .getvnode .root n q → n = rootdir
  placed : ∀ u n id, (pts u).awaits = some (n, id) →
    x.At n id ∨ ∃ w, (pts w).destroys = some id
  handled : ∀ n id, x.At n id → x.linked id = false → x.has id = false →
    ∃ u, (pts u).handles = some id
  finish : ∀ u id, u ∈ x.removed id → u ∈ x.destroyed id ∨ (pts u).owes = some id

omit [DecidableEq τ] in
theorem sems_init : Sems (semfsCreate τ) (fun _ => .out) where
  table := table_init
  roles _ _ _ h := by cases h
  root _ _ _ h := by cases h
  placed _ _ _ h := by cases h
  handled _ _ h := by simp [Fs.At, semfsCreate] at h
  finish _ _ h := by simp [semfsCreate] at h

variable {x x' : Fs τ} {pts : τ → Point} {t u : τ} {p k : Point}

/-- What a step of `t` has to keep. -/
structure Keeps (x x' : Fs τ) (t : τ) (pts : τ → Point) (p : Point) : Prop where
  table : Table x'
  self : ∀ id r, p.role = some (id, r) → Holds x' t id r
  others : ∀ u, u ≠ t → ∀ id r, (pts u).role = some (id, r) → Holds x u id r → Holds x' u id r
  root : ∀ n q, p = .getvnode .root n q → n = rootdir
  placed : ∀ u n id, (pts u).awaits = some (n, id) → (u = t → p.awaits = some (n, id)) →
    x.At n id → x'.At n id ∨ p.destroys = some id
  destroys : ∀ id, (pts t).destroys = some id →
    p.destroys = some id ∨ ∀ u n, (pts u).awaits ≠ some (n, id)
  awaits : ∀ n id, p.awaits = some (n, id) → x'.At n id ∨ (pts t).awaits = some (n, id)
  handled : ∀ n id, x'.At n id → x'.linked id = false → x'.has id = false →
    p.handles = some id ∨
      ((pts t).handles ≠ some id ∧ x.At n id ∧ x.linked id = false ∧ x.has id = false)
  finish : ∀ u id, u ∈ x'.removed id → u ∈ x'.destroyed id ∨ (u = t ∧ p.owes = some id) ∨
    (u ∈ x.removed id ∧ (u ∈ x.destroyed id → u ∈ x'.destroyed id) ∧
      (u = t → (pts t).owes = some id → p.owes = some id))

theorem Sems.keep (h : Sems x pts) (hk : Keeps x x' t pts p) :
    Sems x' (Function.update pts t p) where
  table := hk.table
  roles u id r hr := by
    by_cases hu : u = t
    · subst hu
      rw [Function.update_self] at hr
      exact hk.self id r hr
    · rw [Function.update_of_ne hu] at hr
      exact hk.others u hu id r hr (h.roles u id r hr)
  root u n q hq := by
    by_cases hu : u = t
    · subst hu
      rw [Function.update_self] at hq
      exact hk.root n q hq
    · rw [Function.update_of_ne hu] at hq
      exact h.root u n q hq
  placed u n id hu := by
    have hplaced : ∀ u, (pts u).awaits = some (n, id) → (u = t → p.awaits = some (n, id)) →
        x'.At n id ∨ ∃ w, (Function.update pts t p w).destroys = some id := by
      intro u hu hut
      rcases h.placed u n id hu with hat | ⟨w, hw⟩
      · exact (hk.placed u n id hu hut hat).imp_right fun hp => ⟨t, by rwa [Function.update_self]⟩
      · by_cases hwt : w = t
        · rw [hwt] at hw
          have hp := (hk.destroys id hw).resolve_right fun hnone => hnone u n hu
          exact .inr ⟨t, by rwa [Function.update_self]⟩
        · exact .inr ⟨w, by rwa [Function.update_of_ne hwt]⟩
    by_cases hut : u = t
    · subst hut
      rw [Function.update_self] at hu
      rcases hk.awaits n id hu with hat | hold
      · exact .inl hat
      · exact hplaced u hold fun _ => hu
    · rw [Function.update_of_ne hut] at hu
      exact hplaced u hu fun he => absurd he hut
  handled n id hat hl hh := by
    rcases hk.handled n id hat hl hh with hp | ⟨hne, hat, hl, hh⟩
    · exact ⟨t, by rwa [Function.update_self]⟩
    · obtain ⟨u, hu⟩ := h.handled n id hat hl hh
      refine ⟨u, ?_⟩
      rwa [Function.update_of_ne]
      rintro rfl
      exact hne hu
  finish u id hu := by
    rcases hk.finish u id hu with hd | ⟨rfl, hp⟩ | ⟨hu, hd, hp⟩
    · exact .inl hd
    · exact .inr (by rwa [Function.update_self])
    · refine (h.finish u id hu).imp hd fun ho => ?_
      by_cases hut : u = t
      · subst hut
        rw [Function.update_self]
        exact hp rfl ho
      · rwa [Function.update_of_ne hut]

/-- A step that does nothing to semaphores. -/
theorem Sems.idle (h : Sems x pts) (hx : SameTable x x')
    (hself : ∀ id r, p.role = some (id, r) → Holds x t id r)
    (hroot : ∀ n q, p = .getvnode .root n q → n = rootdir)
    (hdestroys : p.destroys = (pts t).destroys)
    (hawaits : ∀ a, p.awaits = some a → (pts t).awaits = some a)
    (hhandles : ∀ n id, (pts t).handles = some id → x.At n id → x.linked id = false →
      x.has id = false → p.handles = some id)
    (howes : ∀ id, (pts t).owes = some id → p.owes = some id) :
    Sems x' (Function.update pts t p) := by
  have hsem := hx.sameSem
  refine h.keep ⟨h.table.same hx, fun id r hr => ?_, fun u _ id r _ hr => ?_, hroot,
    fun u n id _ _ hat => ?_, fun id hid => ?_, fun n id ha => .inr (hawaits _ ha),
    fun n id hat hl hh => ?_, fun u id hu => ?_⟩
  · exact (hself id r hr).same (hsem id) hx.numbered
  · exact hr.same (hsem id) hx.numbered
  · exact .inl (((hsem id).at_iff n).2 hat)
  · exact .inl (hdestroys.trans hid)
  · rw [(hsem id).at_iff] at hat
    rw [(hsem id).linked] at hl
    rw [(hsem id).has] at hh
    by_cases hp : (pts t).handles = some id
    · exact .inl (hhandles n id hp hat hl hh)
    · exact .inr ⟨hp, hat, hl, hh⟩
  · rw [hx.removed] at hu
    rw [hx.destroyed]
    exact .inr (.inr ⟨hu, fun hd => hd, fun _ => howes id⟩)

omit [DecidableEq τ] in
/-- What a thread with `semfs_dirlock` keeps from the others. -/
theorem dir_eq_false (hex : Exclusive pts) (ht : (pts t).locked .dir = true) (hu : u ≠ t)
    {id : SemId} {r : Role} (hr : (pts u).role = some (id, r)) : r.dir = false := by
  rw [← Bool.not_eq_true]
  exact fun h => hu (hex.dir u t (dir_of_role hr h) ht)

omit [DecidableEq τ] in
theorem table_eq_false (hex : Exclusive pts) (ht : (pts t).locked .table = true) (hu : u ≠ t)
    {id : SemId} {r : Role} (hr : (pts u).role = some (id, r)) : r.table = false := by
  rw [← Bool.not_eq_true]
  exact fun h => hu (hex.table u t (table_of_role hr h) ht)

theorem dir_of_awaits {a : Nat × SemId} (h : k.awaits = some a) : k.locked .dir = true := by
  unfold Point.awaits at h
  split at h <;> first | rfl | cases h

theorem dir_of_unlinks {id : SemId} (h : k.unlinks = some id) : k.locked .dir = true := by
  unfold Point.unlinks at h
  split at h <;> first | rfl | cases h

theorem table_of_destroys {id : SemId} (h : k.destroys = some id) : k.locked .table = true := by
  unfold Point.destroys at h
  split at h
  · rfl
  · cases h

theorem unlinks_of_awaits {n : Nat} {id : SemId} (h : k.awaits = some (n, id)) :
    k.unlinks = some id := by
  unfold Point.awaits at h
  split at h <;> cases h <;> rfl

theorem listed_of_role {id : SemId} {v : VnId} (h : k.role = some (id, .user v)) :
    k.view.listed = some v := by
  unfold Point.role at h
  split at h <;> first | (cases h; done) | (cases h; rfl) | skip
  rename_i q
  cases q <;> simp [Getvnode.role] at h
  obtain ⟨-, rfl⟩ := h
  rfl

variable {n : Nat} {id : SemId}

/-- A semaphore is taken from the table. -/
theorem Sems.remove (h : Sems x pts) (hrefs : Refs x pts) (hex : Exclusive pts)
    (htable : (pts t).locked .table = true) (hat : x.At n id) (hlinked : x.linked id = false)
    (hhas : x.has id = false) (hearly : (pts t).locked .dir = true ∨ x.opened id = true)
    (hrole : p.role = some (id, .gone) ∨ (p.role = some (id, .lost) ∧ x.opened id = false))
    (hdestroys : p.destroys = some id ∨ (pts t).locked .dir = true)
    (hnone : (pts t).destroys = none ∧ (pts t).owes = none ∧ p.awaits = none)
    (hhandles : ∀ id', (pts t).handles = some id' → id' = id) :
    Sems (x.remove t n id) (Function.update pts t p) := by
  have hgone : Unplaced (x.remove t n id) id := unplaced_remove h.table hat hlinked hhas
  have hremoved : (x.remove t n id).removed id = [t] := removed_remove h.table hat
  refine h.keep ⟨h.table.remove hat hhas, fun id' r hr => ?_, fun u hu id' r hr hold => ?_,
    fun m q hq => ?_, fun u m id' hu hut hm => ?_, fun id' hid' => ?_, fun m id' ha => ?_,
    fun m id' hm hl hh => ?_, fun u id' hu => ?_⟩
  · rcases hrole with hp | ⟨hp, hopened⟩
    · rw [hp] at hr
      cases hr
      exact ⟨hgone, hremoved⟩
    · rw [hp] at hr
      cases hr
      exact ⟨hgone, hopened, .inr hremoved⟩
  · refine hold.remove h.table hat hlinked hhas (fun v hv => ?_)
      (table_eq_false hex htable hu hr) (hearly.imp_left fun hdir => dir_eq_false hex hdir hu hr)
    subst hv
    exact (hrefs.knows u).listed v (listed_of_role hr)
  · subst hq
    rcases hrole with hp | ⟨hp, -⟩ <;> cases hp
  · rw [at_remove]
    by_cases hmn : m = n
    · subst hmn
      obtain rfl := hm.unique hat
      refine .inr (hdestroys.resolve_right fun hdir => ?_)
      have := hut (hex.dir u t (dir_of_awaits hu) hdir)
      rw [hnone.2.2] at this
      cases this
    · exact .inl ⟨hm, hmn⟩
  · rw [hnone.1] at hid'
    cases hid'
  · rw [hnone.2.2] at ha
    cases ha
  · obtain ⟨hm, hmn⟩ := (at_remove m id').1 hm
    refine .inr ⟨fun hp => ?_, hm, hl, hh⟩
    rw [hhandles id' hp] at hm
    exact hmn (h.table.inj m n id hm hat)
  · by_cases hne : id' = id
    · subst hne
      rw [hremoved] at hu
      refine .inr (.inl ⟨List.mem_singleton.1 hu, ?_⟩)
      unfold Point.owes
      rcases hrole with hp | ⟨hp, -⟩ <;> rw [hp]
    · rw [(remove_same hat hne).removed] at hu
      refine .inr (.inr ⟨hu, fun hd => hd, fun _ ho => ?_⟩)
      rw [hnone.2.1] at ho
      cases ho

/-- A semaphore is destroyed. -/
theorem Sems.destroy (h : Sems x pts) (hex : Exclusive pts) (hid : Unplaced x id)
    (hremoved : x.removed id = [t] ∨ (x.removed id = [] ∧ (pts t).locked .dir = true))
    (hp : p.role = none ∧ p.awaits = none ∧ (∀ f m q, p ≠ .getvnode f m q))
    (hnone : (pts t).handles = none) (howes : ∀ id', (pts t).owes = some id' → id' = id)
    (hdestroys : ∀ id', (pts t).destroys = some id' → ∀ u m, (pts u).awaits ≠ some (m, id')) :
    Sems (x.destroy t id) (Function.update pts t p) := by
  refine h.keep ⟨h.table.destroy hid, fun id' r hr => ?_, fun u hu id' r hr hold => ?_,
    fun m q hq => absurd hq (hp.2.2 _ m q), fun u m id' _ _ hm => .inl hm,
    fun id' hid' => .inr (hdestroys id' hid'), fun m id' ha => ?_, fun m id' hm hl hh => ?_,
    fun u id' hu => ?_⟩
  · rw [hp.1] at hr
    cases hr
  · exact hold.destroy hu hid (hremoved.imp_right fun ⟨he, hdir⟩ =>
      ⟨he, dir_eq_false hex hdir hu hr⟩)
  · rw [hp.2.1] at ha
    cases ha
  · refine .inr ⟨?_, hm, hl, hh⟩
    rw [hnone]
    nofun
  · replace hu : u ∈ x.removed id' := hu
    by_cases hne : id' = id
    · subst hne
      rcases hremoved with he | ⟨he, -⟩ <;> rw [he] at hu
      · rw [List.mem_singleton.1 hu]
        exact .inl (by simp [Fs.destroy])
      · cases hu
    · rw [(destroy_same hne).destroyed]
      exact .inr (.inr ⟨hu, fun hd => hd, fun _ ho => absurd (howes id' ho) hne⟩)

/-- The vnode of the directory comes or goes. -/
theorem Sems.rootVnode (h : Sems x pts) (hsem : ∀ id, SameSem x x' id) (hnum : Numbered x x')
    (htab : Table x') (hp : p.role = none ∧ p.awaits = none ∧ p.destroys = none)
    (hnone : (pts t).handles = none ∧ (pts t).owes = none ∧ (pts t).destroys = none)
    (hroot : ∀ n q, p = .getvnode .root n q → n = rootdir) :
    Sems x' (Function.update pts t p) := by
  refine h.keep ⟨htab, fun id r hr => ?_, fun u _ id r _ hold => hold.same (hsem id) hnum, hroot,
    fun u m id _ _ hm => .inl (((hsem id).at_iff m).2 hm), fun id hid => ?_, fun m id ha => ?_,
    fun m id hm hl hh => ?_, fun u id hu => ?_⟩
  · rw [hp.1] at hr
    cases hr
  · rw [hnone.2.2] at hid
    cases hid
  · rw [hp.2.1] at ha
    cases ha
  · rw [(hsem id).at_iff] at hm
    rw [(hsem id).linked] at hl
    rw [(hsem id).has] at hh
    refine .inr ⟨?_, hm, hl, hh⟩
    rw [hnone.1]
    nofun
  · rw [(hsem id).removed] at hu
    rw [(hsem id).destroyed]
    refine .inr (.inr ⟨hu, fun hd => hd, fun _ ho => ?_⟩)
    rw [hnone.2.1] at ho
    cases ho

omit [DecidableEq τ] in
theorem dir_getvnode {f : GetvnodeCaller} {n : Nat} (q : Getvnode)
    (hroot : f = .root → n = rootdir) (hn : n ≠ rootdir) :
    (Point.getvnode f n q).locked .dir = true := by
  cases f with
  | root => exact absurd (hroot rfl) hn
  | found => cases q <;> rfl
  | created => cases q <;> rfl

theorem Sems.runs (h : Sems x pts) (hrefs : Refs x pts) (hdirs : Dirs x pts) (hex : Exclusive pts)
    (hr : Runs t (pts t) x p x')
    (horderly : ∀ id, (pts t).destroys = some id → ∀ u, (pts u).unlinks ≠ some id) :
    Sems x' (Function.update pts t p) := by
  have hself := h.roles t
  have hviews := hrefs.knows t
  have hknows := hdirs.knows t
  have hroot := h.root t
  generalize hp : pts t = k at hr hself hviews hknows hroot
  have hsame : SameTable x x := ⟨rfl, rfl, rfl, rfl, rfl, rfl, fun _ _ => Iff.rfl⟩
  have hidle : ∀ {x'}, SameTable x x' → p.role = k.role → p.handles = k.handles →
      p.owes = k.owes → p.destroys = k.destroys → p.awaits = k.awaits →
      (∀ n q, p = .getvnode .root n q → n = rootdir) → Sems x' (Function.update pts t p) := by
    intro x' hx hrole hhandles howes hdestroys hawaits hroot'
    subst hp
    refine h.idle hx (fun id r e => h.roles t id r (hrole ▸ e)) hroot' hdestroys ?_ ?_ ?_
    · rw [hawaits]
      exact fun _ ha => ha
    · rw [hhandles]
      exact fun _ _ ha _ _ _ => ha
    · rw [howes]
      exact fun _ ha => ha
  cases hr with
  | @create _ name excl empty id hid =>
    obtain ⟨hrem, hdes, hopened⟩ := h.table.unborn id hid
    have hnot := not_at_of_unborn h.table hid
    refine h.keep ⟨h.table.create hid, fun id' r hr => ?_, fun u _ id' r _ hold =>
      hold.create h.table hid, by intros; contradiction, fun u m id' _ _ hm => .inl hm,
      fun id' hid' => ?_, by intros; contradiction, fun m id' hm hl hh => ?_,
      fun u id' hu => .inr (.inr ⟨hu, fun hd => hd, fun _ ho => ?_⟩)⟩
    · cases hr
      refine ⟨⟨?_, ?_, ?_, hdes, hnot⟩, hopened, hrem⟩
      · simp [Fs.born, Fs.create]
      · simp [Fs.linked, Fs.create]
      · simp [Fs.has, Fs.create]
    · rw [hp] at hid'
      cases hid'
    · have hne : id' ≠ id := by
        rintro rfl
        exact hnot m hm
      rw [(create_same hne).linked] at hl
      rw [(create_same hne).has] at hh
      refine .inr ⟨?_, hm, hl, hh⟩
      rw [hp]
      intro e
      cases e
    · rw [hp] at ho
      cases ho
  | @insertFails _ name excl empty id =>
    obtain ⟨hid, hopened, hrem⟩ := hself id .fresh rfl
    refine h.idle hsame (fun id' r hr => ?_) (by intros; contradiction) ?_
      (by intros; contradiction) ?_ ?_
    · cases hr
      exact ⟨hid, hopened, .inl hrem⟩
    · rw [hp]
      rfl
    · rw [hp]
      intros
      contradiction
    · rw [hp]
      intros
      contradiction
  | @insert _ name excl empty id hsize =>
    obtain ⟨hid, hopened, hrem⟩ := hself id .fresh rfl
    have hat : (x.insert (x.sems.idxOf none) id).At (x.sems.idxOf none) id :=
      (at_insert _ id).2 (.inr ⟨rfl, rfl⟩)
    have hdir : (pts t).locked .dir = true := by
      rw [hp]
      rfl
    refine h.keep ⟨h.table.insert hid hrem hsize, fun id' r hr => ?_, fun u hu id' r hr hold =>
      hold.insert hid hrem (dir_eq_false hex hdir hu hr), by intros; contradiction,
      fun u m id' _ _ hm => .inl ((at_insert m id').2 (.inl hm)), fun id' hid' => ?_,
      by intros; contradiction, fun m id' hm hl hh => ?_,
      fun u id' hu => .inr (.inr ⟨hu, fun hd => hd, fun _ ho => ?_⟩)⟩
    · cases hr
      exact ⟨hat, hid.linked, hid.has, hopened⟩
    · rw [hp] at hid'
      cases hid'
    · rcases (at_insert m id').1 hm with hm | ⟨rfl, rfl⟩
      · refine .inr ⟨?_, hm, hl, hh⟩
        rw [hp]
        intro e
        cases e
      · exact .inl rfl
    · rw [hp] at ho
      cases ho
  | @link _ name excl slot id v =>
    obtain ⟨n, hat, hv⟩ := hself id (.user v) rfl
    have hdir : (pts t).locked .dir = true := by
      rw [hp]
      rfl
    refine h.keep ⟨h.table.setLinked true, by intros; contradiction, fun u hu id' r hr hold =>
      hold.setLinked hat (dir_eq_false hex hdir hu hr), by intros; contradiction,
      fun u m id' _ _ hm => .inl hm,
      fun id' hid' => ?_, by intros; contradiction, fun m id' hm hl hh => ?_,
      fun u id' hu => .inr (.inr ⟨hu, fun hd => hd, fun _ ho => ?_⟩)⟩
    · rw [hp] at hid'
      cases hid'
    · have hne : id' ≠ id := by
        rintro rfl
        rw [linked_setLinked (h.table.born hat)] at hl
        cases hl
      rw [(setLinked_same hne).linked] at hl
      rw [has_setLinked] at hh
      refine .inr ⟨?_, hm, hl, hh⟩
      rw [hp]
      intro e
      cases e
    · rw [hp] at ho
      cases ho
  | @uninsert _ name excl n id =>
    obtain ⟨hat, hlinked, hhas, hopened⟩ := hself id (.early n) rfl
    refine h.remove hrefs hex ?_ hat hlinked hhas (.inl ?_) (.inr ⟨rfl, hopened⟩) (.inr ?_) ?_ ?_
    · rw [hp]
      rfl
    · rw [hp]
      rfl
    · rw [hp]
      rfl
    · rw [hp]
      exact ⟨rfl, rfl, rfl⟩
    · rw [hp]
      intro id' hid'
      cases hid'
      rfl
  | @uncreate _ name excl id =>
    obtain ⟨hid, -, hrem⟩ := hself id .lost rfl
    refine h.destroy hex hid (hrem.symm.imp_right fun he => ⟨he, ?_⟩)
      ⟨rfl, rfl, fun _ _ _ e => by cases e⟩ ?_ ?_ ?_
    · rw [hp]
      rfl
    · rw [hp]
      rfl
    · rw [hp]
      intro id' hid'
      cases hid'
      rfl
    · rw [hp]
      intros
      contradiction
  | @unlink _ name i n id d hd hlinked =>
    obtain ⟨hat, -⟩ := hself id (.entry n) rfl
    have hdir : (pts t).locked .dir = true := by
      rw [hp]
      rfl
    have hfalse := linked_setLinked (b := false) (h.table.born hat)
    refine h.keep ⟨h.table.setLinked false, fun id' r hr => ?_, fun u hu id' r hr hold =>
      hold.setLinked hat (dir_eq_false hex hdir hu hr), by intros; contradiction,
      fun u m id' _ _ hm => .inl hm,
      fun id' hid' => ?_, fun m id' ha => ?_, fun m id' hm hl hh => ?_,
      fun u id' hu => .inr (.inr ⟨hu, fun hd => hd, fun _ ho => ?_⟩)⟩
    · cases hr
      exact hfalse
    · rw [hp] at hid'
      cases hid'
    · cases ha
      exact .inl hat
    · by_cases hne : id' = id
      · rw [hne]
        exact .inl rfl
      · rw [(setLinked_same hne).linked] at hl
        rw [has_setLinked] at hh
        refine .inr ⟨?_, hm, hl, hh⟩
        rw [hp]
        intro e
        cases e
    · rw [hp] at ho
      cases ho
  | @testHas _ name i n id d hd hhas =>
    refine h.idle hsame (fun id' r hr => ?_) (by intros; contradiction) ?_
      (by intros; contradiction) ?_ ?_
    · cases hr
      exact hself id .unlinked rfl
    · rw [hp]
      rfl
    · rw [hp]
      intro m id' hid' _ _ hh
      cases hid'
      rw [has_eq hd] at hh
      exact absurd (hhas.symm.trans hh) (by simp)
    · rw [hp]
      intros
      contradiction
  | @testHasNot _ name i n id d hd hhas =>
    refine h.idle hsame (fun id' r hr => ?_) (by intros; contradiction) ?_ ?_ ?_ ?_
    · cases hr
      exact ⟨hself id .unlinked rfl, (has_eq hd).trans hhas⟩
    · rw [hp]
      rfl
    · rw [hp]
      exact fun _ ha => ha
    · rw [hp]
      exact fun _ _ ha _ _ _ => ha
    · rw [hp]
      intros
      contradiction
  | @clear _ name i n id =>
    obtain ⟨hat, hlinked, hhas⟩ := hself id (.clearing n) rfl
    refine h.remove hrefs hex ?_ hat hlinked hhas (.inl ?_) (.inl rfl) (.inr ?_) ?_ ?_
    · rw [hp]
      rfl
    · rw [hp]
      rfl
    · rw [hp]
      rfl
    · rw [hp]
      exact ⟨rfl, rfl, rfl⟩
    · rw [hp]
      intro id' hid'
      cases hid'
      rfl
  | @removeDestroy _ name i id =>
    obtain ⟨hid, hrem⟩ := hself id .gone rfl
    refine h.destroy hex hid (.inl hrem) ⟨rfl, rfl, fun _ _ _ e => by cases e⟩ ?_ ?_ ?_
    · rw [hp]
      rfl
    · rw [hp]
      intro id' hid'
      cases hid'
      rfl
    · rw [hp]
      intros
      contradiction
  | @getIncref _ f n v d hd =>
    have hhold : SameTable x ((x.hold t v).setRefcount v (d.refcount + 1)) :=
      sameTable_setRefcount (sameTable_hold t v) _ _
    have hroot' : ∀ m q, Point.getvnode f n (.ok v) = .getvnode .root m q → m = rootdir := by
      intro m q e
      cases e
      exact hroot _ _ rfl
    cases f with
    | root | found => exact hidle hhold rfl rfl rfl rfl rfl hroot'
    | created name excl slot id =>
      obtain ⟨hat, -⟩ := hself id (.early n) rfl
      have hnum := hviews.numbered v n rfl
      refine h.idle hhold (fun id' r hr => ?_) hroot' ?_ (by intros; contradiction) ?_ ?_
      · cases hr
        exact ⟨n, hat, hnum⟩
      · rw [hp]
        rfl
      · rw [hp]
        intro m id' hid' _ _ hh
        cases hid'
        have hhas := (h.table.has_iff id).2 ⟨n, v, hat, hviews.listed v rfl, hnum⟩
        exact absurd (hh.symm.trans hhas) (by simp)
      · rw [hp]
        intros
        contradiction
  | @makeRoot _ f n v hv hn =>
    have hvn : ∀ w m, m ≠ rootdir → ((x.addVnode t v n).IsVn w m ↔ x.IsVn w m) := fun w m hm => by
      rw [isVn_addVnode hv (hrefs.unborn v hv).2.2]
      simp [hn, hm]
    have hsem := addVnode_same (x := x) t v n
    have htab := h.table.rootVnode hsem rfl hvn
    have hroot' : ∀ m q, Point.getvnode f n (.ok v) = .getvnode .root m q → m = rootdir := by
      intro m q e
      cases e
      exact hn
    cases f with
    | root | found =>
      exact h.rootVnode hsem (numbered_addVnode hv t n) htab ⟨rfl, rfl, rfl⟩
        (by rw [hp]; exact ⟨rfl, rfl, rfl⟩) hroot'
    | created name excl slot id => exact absurd hn (h.table.ne_rootdir (hself id (.early n) rfl).1)
  | @make _ f n v id d hv hn hat hd hhas =>
    have hnew := isVn_addVnode (t := t) (n := n) hv (hrefs.unborn v hv).2.2
    have hsem := addVnode_same (x := x) t v n
    have hborn : (x.addVnode t v n).born id = true := h.table.born hat
    have hnum := numbered_addVnode hv t n
    have hdir : (pts t).locked .dir = true := by
      rw [hp]
      exact dir_getvnode _ (fun e => hroot n .make (by rw [e])) hn
    have htable : (pts t).locked .table = true := by
      rw [hp]
      exact Bool.or_true _
    have htab : Table ((x.addVnode t v n).setHasvnode id true) := by
      refine h.table.setHasvnode hat hsem rfl (fun w m hm => ?_) ?_
      · rw [hnew]
        simp [hm]
      · exact ⟨fun _ => ⟨v, (hnew v n).2 (.inl ⟨rfl, rfl⟩)⟩, fun _ => rfl⟩
    have hown : ∀ id', (pts t).handles = some id' → id' = id := by
      rw [hp]
      intro id' hid'
      cases f with
      | root | found => cases hid'
      | created name excl slot id₀ =>
        cases hid'
        exact (hself id' (.early n) rfl).1.unique hat
    refine h.keep ⟨htab, fun id' r hr => ?_, fun u hu id' r hr hold => ?_, fun m q e => ?_,
      fun u m id' _ _ hm => .inl hm, fun id' hid' => ?_, by intros; contradiction,
      fun m id' hm hl hh => ?_,
      fun u id' hu => .inr (.inr ⟨hu, fun hd => hd, fun _ ho => ?_⟩)⟩
    · cases f with
      | root | found => cases hr
      | created name excl slot id₀ =>
        cases hr
        exact ⟨n, (hself id' (.early n) rfl).1, (hnew v n).2 (.inl ⟨rfl, rfl⟩) |>.2⟩
    · exact (hold.same (hsem id') hnum).setHasvnode hat hborn
        (.inl ⟨rfl, dir_eq_false hex hdir hu hr, table_eq_false hex htable hu hr⟩)
    · cases e
      exact hroot _ _ rfl
    · rw [hp] at hid'
      cases hid'
    · have hne : id' ≠ id := by
        rintro rfl
        rw [has_setHasvnode hborn] at hh
        cases hh
      rw [linked_setHasvnode] at hl
      rw [(setHasvnode_same hne).has] at hh
      exact .inr ⟨fun ha => hne (hown id' ha), hm, hl, hh⟩
    · rw [hp] at ho
      cases f <;> cases ho
  | @get _ f n id hat =>
    cases f with
    | remove name i =>
      refine h.idle hsame (fun id' r hr => ?_) (by intros; contradiction) ?_
        (by intros; contradiction) ?_ ?_
      · cases hr
        obtain ⟨id', hat', hlinked⟩ := hknows.found n rfl
        rw [hat'.unique hat] at hlinked
        exact ⟨hat, hlinked⟩
      · rw [hp]
        rfl
      · rw [hp]
        intros
        contradiction
      · rw [hp]
        intros
        contradiction
    | use v =>
      refine h.idle hsame (fun id' r hr => ?_) (by intros; contradiction) ?_
        (by intros; contradiction) ?_ ?_
      · cases hr
        exact ⟨n, hat, hviews.numbered v n rfl⟩
      · rw [hp]
        rfl
      · rw [hp]
        intros
        contradiction
      · rw [hp]
        intros
        contradiction
  | @unhaveRoot _ v d hd hn =>
    have hvn : ∀ w m, m ≠ rootdir → ((x.removeVnode v).IsVn w m ↔ x.IsVn w m) := fun w m hm => by
      rw [isVn_removeVnode hrefs.once, and_iff_left_iff_imp]
      rintro ⟨-, e, he, hem⟩ rfl
      rw [hd] at he
      cases he
      exact hm (hem.symm.trans hn)
    have hsem := removeVnode_same (x := x) v
    exact h.rootVnode hsem (fun _ _ hw => hw) (h.table.rootVnode hsem rfl hvn) ⟨rfl, rfl, rfl⟩
      (by rw [hp]; exact ⟨rfl, rfl, rfl⟩) fun _ _ e => by cases e
  | @unhave _ v d id e hd hn hat he hhas =>
    have hsem := removeVnode_same (x := x) v
    have hgone := isVn_removeVnode (v := v) hrefs.once
    have hhas' : x.has id = true := (has_eq he).trans hhas
    have hborn : (x.removeVnode v).born id = true := h.table.born hat
    have hfalse : ((x.removeVnode v).setHasvnode id false).has id = false := has_setHasvnode hborn
    have hv : x.IsVn v d.semnum := ⟨hviews.listed v rfl, d, hd, rfl⟩
    have htab : Table ((x.removeVnode v).setHasvnode id false) := by
      refine h.table.setHasvnode hat hsem rfl (fun w m hm => ?_)
        ⟨by intros; contradiction, fun hlisted => ?_⟩
      · rw [hgone, and_iff_left_iff_imp]
        rintro ⟨-, d', hd', hdm⟩ rfl
        rw [hd] at hd'
        cases hd'
        exact hm hdm.symm
      · obtain ⟨w, hw⟩ := hlisted
        obtain ⟨hw, hne⟩ := (hgone w _).1 hw
        exact absurd (hrefs.inj w v _ hw hv) hne
    refine h.keep ⟨htab, fun id' r hr => ?_, fun u hu id' r hr hold => ?_, by intros; contradiction,
      fun u m id' _ _ hm => .inl hm, fun id' hid' => ?_, by intros; contradiction,
      fun m id' hm hl hh => ?_,
      fun u id' hu => .inr (.inr ⟨hu, fun hd => hd, fun _ ho => ?_⟩)⟩
    · cases hr
      refine ⟨d.semnum, hv.2, hat, hfalse, ?_⟩
      rw [opened_setHasvnode, Bool.or_false]
      exact h.table.opened id hhas'
    · exact (hold.same (hsem id') fun _ _ hw => hw).setHasvnode hat hborn (.inr ⟨rfl, hhas'⟩)
    · rw [hp] at hid'
      cases hid'
    · by_cases hne : id' = id
      · rw [hne]
        exact .inl rfl
      · rw [linked_setHasvnode] at hl
        rw [(setHasvnode_same hne).has] at hh
        refine .inr ⟨?_, hm, hl, hh⟩
        rw [hp]
        intro e
        cases e
    · rw [hp] at ho
      cases ho
  | @isLinked _ v id e he hlinked =>
    refine h.idle hsame (by intros; contradiction) (by intros; contradiction) ?_
      (by intros; contradiction) ?_ ?_
    · rw [hp]
      rfl
    · rw [hp]
      intro m id' hid' _ hl _
      cases hid'
      rw [linked_eq he] at hl
      exact absurd (hlinked.symm.trans hl) (by simp)
    · rw [hp]
      intros
      contradiction
  | @isUnlinked _ v d id e hd he hunlinked =>
    obtain ⟨n, ⟨d', hd', hn⟩, hat, hhas, hopened⟩ := hself id (.loaded v) rfl
    rw [hd] at hd'
    cases hd'
    rw [← hn] at hat
    refine h.remove hrefs hex ?_ hat ((linked_eq he).trans hunlinked) hhas (.inr hopened)
      (.inl rfl) (.inl rfl) ?_ ?_
    · rw [hp]
      rfl
    · rw [hp]
      exact ⟨rfl, rfl, rfl⟩
    · rw [hp]
      intro id' hid'
      cases hid'
      rfl
  | @reclaimDestroy _ v id =>
    obtain ⟨hid, hrem⟩ := hself id .gone rfl
    refine h.destroy hex hid (.inl hrem) ⟨rfl, rfl, fun _ _ _ e => by cases e⟩ ?_ ?_
      fun id' hid' u m ha => horderly id' hid' u (unlinks_of_awaits ha)
    · rw [hp]
      rfl
    · rw [hp]
      intro id' hid'
      cases hid'
      rfl
  | callUse | callDecref =>
    exact hidle (sameTable_take t _) rfl rfl rfl rfl rfl fun _ _ e => by cases e
  | vopIncref =>
    exact hidle (sameTable_setRefcount (sameTable_copy _) _ _) rfl rfl rfl rfl rfl
      fun _ _ e => by cases e
  | decref | busy | vnodeDestroy =>
    exact hidle (sameTable_setRefcount (sameTable_drop t _) _ _) rfl rfl rfl rfl rfl
      fun _ _ e => by cases e
  | dirent | undir | removeDent =>
    refine hidle ?_ rfl rfl rfl rfl rfl fun _ _ e => by cases e
    exact ⟨rfl, rfl, rfl, rfl, rfl, rfl, fun _ _ => Iff.rfl⟩
  | @findVnode _ f n | @findNone _ f n | @makeFails _ f n =>
    have hroot' : ∀ q m q', Point.getvnode f n q = .getvnode .root m q' → m = rootdir := by
      intro q m q' e
      cases e
      exact hroot _ _ rfl
    cases f <;> exact hidle hsame rfl rfl rfl rfl rfl (hroot' _)
  | callGetroot =>
    refine hidle hsame rfl rfl rfl rfl rfl fun m q e => ?_
    cases e
    rfl
  | _ => exact hidle hsame rfl rfl rfl rfl rfl fun _ _ e => by cases e

theorem Sems.calls (h : Sems x pts) {r : Req Lk SemId} (hc : Calls (pts t) r p)
    (hex : Exclusive (Function.update pts t p)) :
    Sems (effect t x (pts t) r) (Function.update pts t p) := by
  have hself := h.roles t
  have hroot := h.root t
  have hx : SameTable x (effect t x (pts t) r) := sameTable_effect t r
  generalize hp : pts t = k at hc hself hroot hx
  have hidle : p.role = k.role → p.handles = k.handles → p.owes = k.owes →
      p.destroys = k.destroys → p.awaits = k.awaits →
      (∀ n q, p = .getvnode .root n q → n = rootdir) →
      Sems (effect t x k r) (Function.update pts t p) := by
    intro hrole hhandles howes hdestroys hawaits hroot'
    subst hp
    refine h.idle hx (fun id r e => h.roles t id r (hrole ▸ e)) hroot' hdestroys ?_ ?_ ?_
    · rw [hawaits]
      exact fun _ ha => ha
    · rw [hhandles]
      exact fun _ _ ha _ _ _ => ha
    · rw [howes]
      exact fun _ ha => ha
  cases hc with
  | unlockSem | useDone =>
    refine h.idle hx nofun nofun ?_ nofun ?_ ?_
    · rw [hp]
      rfl
    · rw [hp]
      nofun
    · rw [hp]
      nofun
  | clearEnter name i n id =>
    refine h.idle hx (fun id' r hr => ?_) nofun ?_ nofun ?_ ?_
    · cases hr
      obtain ⟨hlinked, hhas⟩ := hself id .orphan rfl
      refine ⟨?_, hlinked, hhas⟩
      refine (h.placed t n id (by rw [hp]; rfl)).resolve_right fun ⟨w, hw⟩ => ?_
      -- nobody else has `semfs_tablelock` any more
      have hwt : w ≠ t := by
        rintro rfl
        rw [hp] at hw
        cases hw
      refine hwt (hex.table w t ?_ ?_)
      · rw [Function.update_of_ne hwt]
        exact table_of_destroys hw
      · rw [Function.update_self]
        rfl
    · rw [hp]
      rfl
    · rw [hp]
      intro m id' hid' _ _ _
      cases hid'
      rfl
    · rw [hp]
      nofun
  | getEnter f n | getFail f n | getOk f n v =>
    cases f with
    | root =>
      refine hidle rfl rfl rfl rfl rfl fun m q e => ?_
      cases e <;> exact hroot _ _ rfl
    | found | created => exact hidle rfl rfl rfl rfl rfl nofun
  | semEnter f n | semGot f n id => cases f <;> exact hidle rfl rfl rfl rfl rfl nofun
  | _ => exact hidle rfl rfl rfl rfl rfl nofun

/-! ## Runs -/

/-- `semfs_reclaim` destroys a semaphore only when no thread is in `semfs_remove` between
`sems_linked = false` and the release of the semaphore's lock. -/
def Orderly (s : Machine τ) (t : τ) : Prop :=
  ∀ id, (s.points t).destroys = some id → ∀ u, (s.points u).unlinks ≠ some id

/-- What holds in every state. -/
structure Lively (s : Machine τ) : Prop where
  sound : Sound (semfsThreads τ) s
  refs : Refs s.shared s.points
  dirs : Dirs s.shared s.points
  sems : Sems s.shared s.points

/-- Step lemma. -/
theorem Lively.step {s s' : Machine τ} (h : Lively s) (hok : Orderly s t)
    (hs : Step (semfsThreads τ) s t s') : Lively s' := by
  have hsound := hs.sound h.sound
  have hex := exclusive_of_sound h.sound
  refine ⟨hsound, h.refs.step hs h.sound, ?_, ?_⟩
  · rcases step_cases hs with ⟨p, hr, hpts⟩ | ⟨r, p, hc, hx, hpts⟩ | ⟨hx, hpts⟩
    · rw [hpts]
      exact h.dirs.runs h.sems.table h.sems.roles hex hr
    · rw [hpts, hx]
      exact h.dirs.calls h.refs hc
    · rw [hx, hpts]
      exact h.dirs
  · rcases step_cases hs with ⟨p, hr, hpts⟩ | ⟨r, p, hc, hx, hpts⟩ | ⟨hx, hpts⟩
    · rw [hpts]
      exact h.sems.runs h.refs h.dirs hex hr hok
    · rw [hpts, hx]
      refine h.sems.calls hc ?_
      rw [← hpts]
      exact exclusive_of_sound hsound
    · rw [hx, hpts]
      exact h.sems

/-- Run lemma. -/
theorem lively_of_reach {s : Machine τ}
    (h : Reach (Step (semfsThreads τ)) Orderly ((semfsThreads τ).init (semfsCreate τ)) s) :
    Lively s :=
  h.invariant (fun _ _ _ hI hok hs => hI.step hok hs)
    ⟨sound_init _, refs_init, dirs_init, sems_init⟩

omit [DecidableEq τ] in
theorem ne_of_update {f : SemId → List τ} {id id' : SemId} {l : List τ}
    (h : Function.update f id' l id ≠ f id) : id = id' := by
  by_contra hne
  exact h (Function.update_of_ne hne _ _)

/-- Who takes a semaphore from the table. -/
theorem removed_cases (hr : Runs t k x p x') (hne : x'.removed id ≠ x.removed id) :
    ∃ r, k.role = some (id, r) ∧ ((∃ m, r = .early m) ∨ (∃ m, r = .clearing m) ∨
      ∃ v, r = .loaded v ∧ x.linked id = false) := by
  cases hr with
  | uninsert =>
    obtain rfl := ne_of_update hne
    exact ⟨_, rfl, .inl ⟨_, rfl⟩⟩
  | clear =>
    obtain rfl := ne_of_update hne
    exact ⟨_, rfl, .inr (.inl ⟨_, rfl⟩)⟩
  | isUnlinked hd he hunlinked =>
    obtain rfl := ne_of_update hne
    exact ⟨_, rfl, .inr (.inr ⟨_, rfl, (linked_eq he).trans hunlinked⟩)⟩
  | _ => exact absurd rfl hne

/-- Who destroys a semaphore. -/
theorem destroyed_cases (hr : Runs t k x p x') (hne : x'.destroyed id ≠ x.destroyed id) :
    (k.role = some (id, .lost) ∨ k.role = some (id, .gone)) ∧
      (k.locked .dir = true ∨ k.destroys = some id) := by
  cases hr with
  | uncreate =>
    obtain rfl := ne_of_update hne
    exact ⟨.inl rfl, .inl rfl⟩
  | removeDestroy =>
    obtain rfl := ne_of_update hne
    exact ⟨.inr rfl, .inl rfl⟩
  | reclaimDestroy =>
    obtain rfl := ne_of_update hne
    exact ⟨.inr rfl, .inr rfl⟩
  | _ => exact absurd rfl hne

theorem history_effect (t : τ) (r : Req Lk SemId) :
    (effect t x k r).removed = x.removed ∧ (effect t x k r).destroyed = x.destroyed :=
  ⟨(sameTable_effect t r).removed, (sameTable_effect t r).destroyed⟩

/-- A step that changes the history of a semaphore is a step of the code between the calls. -/
theorem runs_of_history {s s' : Machine τ} (hs : Step (semfsThreads τ) s t s')
    (hne : s'.shared.removed id ≠ s.shared.removed id ∨
      s'.shared.destroyed id ≠ s.shared.destroyed id) :
    ∃ p, Runs t (s.points t) s.shared p s'.shared := by
  rcases step_cases hs with ⟨p, hr, -⟩ | ⟨r, p, -, hx, -⟩ | ⟨hx, -⟩
  · exact ⟨p, hr⟩
  · obtain ⟨hrem, hdes⟩ := history_effect (x := s.shared) (k := s.points t) t r
    rw [hx, hrem, hdes] at hne
    rcases hne with hne | hne <;> exact absurd rfl hne
  · rw [hx] at hne
    rcases hne with hne | hne <;> exact absurd rfl hne

/-- The thread `u` has `sems_lock` or waits for it. -/
def Needs (s : Machine τ) (id : SemId) (u : τ) : Prop :=
  s.holder (.sems id) = some u ∨
    (∃ k p, s.pcs u = .active k ∧ Calls k (.acquire (.sems id)) p) ∨
    ∃ c p, s.pcs u = .waiting c (.sems id) p

theorem GetvnodeCaller.locked_sems (f : GetvnodeCaller) (id : SemId) :
    f.locked (.sems id) = false := by
  cases f <;> rfl

theorem GetsemCaller.locked_sems (f : GetsemCaller) (id : SemId) :
    f.locked (.sems id) = false := by
  cases f <;> rfl

theorem role_of_locked (h : k.locked (.sems id) = true) :
    (∃ n, k.role = some (id, .entry n)) ∨ (∃ v, k.role = some (id, .user v)) ∨
      k.unlinks = some id := by
  unfold Point.locked at h
  split at h <;>
    first
    | (simp [GetvnodeCaller.locked_sems, GetsemCaller.locked_sems] at h; done)
    | (simp at h; subst h
       first | exact .inl ⟨_, rfl⟩ | exact .inr (.inl ⟨_, rfl⟩) | exact .inr (.inr rfl))

theorem role_of_needs {s : Machine τ} (h : Sound (semfsThreads τ) s) (hu : Needs s id u) :
    (∃ n, (s.points u).role = some (id, .entry n)) ∨
      (∃ v, (s.points u).role = some (id, .user v)) ∨ (s.points u).unlinks = some id := by
  rcases hu with hheld | ⟨k, p, hk, hc⟩ | ⟨c, p, hk⟩
  · have howns := (h.owner _ u).1 hheld
    apply role_of_locked
    unfold Machine.points
    cases hpc : s.pcs u with
    | active k =>
      rw [hpc] at howns
      exact howns
    | waiting c ℓ p =>
      obtain ⟨k, hc⟩ := h.called u c ℓ p hpc
      rw [hpc] at howns
      cases hc with
      | useWait v id' =>
        -- a thread that waits has given up its only lock
        by_cases he : Lk.sems id = Lk.sems c
        · rw [he] at howns
          simp [Pc.owns] at howns
        · simp [Pc.owns, semfsThreads, Point.locked, he] at howns
  · rw [points_of_active hk]
    cases hc with
    | lock name i n => exact .inl ⟨n, rfl⟩
    | useEnter v => exact .inr (.inl ⟨v, rfl⟩)
  · obtain ⟨k, hc⟩ := h.called u c _ p hk
    unfold Machine.points
    rw [hk]
    cases hc with
    | useWait v => exact .inr (.inl ⟨v, rfl⟩)

/-- About to take the semaphore `id` from the table, when the flag that is read next allows it. -/
def Point.removes : Point → Option SemId
  | .remove _ (.test _ _ id) | .remove _ (.clearEnter _ _ id) | .remove _ (.clear _ _ id)
  | .reclaim _ (.linked id) => some id
  | _ => none

theorem removes_of_handles (h : k.handles = some id) :
    k.removes = some id ∨ ∃ n, k.role = some (id, .early n) := by
  unfold Point.handles at h
  split at h
  · exact .inl h
  · split at h <;> cases h
    · rename_i hr
      exact .inr ⟨_, hr⟩
    all_goals
      rename_i hr
      refine .inl ?_
      unfold Point.role at hr
      split at hr <;> first | (cases hr; done) | (cases hr; rfl) | skip
      rename_i q _
      cases q <;> simp [Getvnode.role] at hr

/-- The life of a semaphore: in runs where `semfs_reclaim` destroys no semaphore that `semfs_remove`
has unlinked and not yet unlocked, each semaphore is taken from the table and destroyed at most
once, by one thread, when it is neither linked nor has a vnode, and when no other thread has its
lock or waits for it; and one that is unlinked and has lost its vnode is in the table only while a
thread is about to take it out. -/
theorem semfs_sem_lifetime {s : Machine τ}
    (h : Reach (Step (semfsThreads τ)) Orderly ((semfsThreads τ).init (semfsCreate τ)) s) :
    (∀ id, (s.shared.removed id).length ≤ 1 ∧ (s.shared.destroyed id).length ≤ 1 ∧
      ∀ t, t ∈ s.shared.removed id → t ∈ s.shared.destroyed id ∨ (s.points t).owes = some id) ∧
    (∀ t s' id, Orderly s t → Step (semfsThreads τ) s t s' →
      (s'.shared.removed id ≠ s.shared.removed id →
        ∃ n, s.shared.At n id ∧ s.shared.linked id = false ∧ s.shared.has id = false ∧
          ∀ v, ¬ s.shared.IsVn v n) ∧
      (s'.shared.destroyed id ≠ s.shared.destroyed id →
        s.shared.linked id = false ∧ s.shared.has id = false ∧ (∀ n, ¬ s.shared.At n id) ∧
          ∀ u, u ≠ t → ¬ Needs s id u)) ∧
    (∀ n id, s.shared.At n id → s.shared.opened id = true → s.shared.linked id = false →
      s.shared.has id = false → ∃ u, (s.points u).removes = some id) := by
  have hI := lively_of_reach h
  have htab := hI.sems.table
  have hex := exclusive_of_sound hI.sound
  refine ⟨fun id => ⟨(htab.once id).1, (htab.once id).2, fun t => hI.sems.finish t id⟩,
    fun t s' id hok hs => ⟨fun hne => ?_, fun hne => ?_⟩, fun n id hat hopened hlinked hhas => ?_⟩
  · obtain ⟨p, hr⟩ := runs_of_history hs (.inl hne)
    obtain ⟨r, hrole, hcases⟩ := removed_cases hr hne
    have hholds := hI.sems.roles t id r hrole
    have hnone : ∀ n, s.shared.At n id → s.shared.has id = false → ∀ v, ¬ s.shared.IsVn v n :=
      fun n hat hhas v hv => by
        have := (htab.has_iff id).2 ⟨n, v, hat, hv⟩
        exact absurd (hhas.symm.trans this) (by simp)
    rcases hcases with ⟨m, rfl⟩ | ⟨m, rfl⟩ | ⟨v, rfl, hlinked⟩
    · obtain ⟨hat, hlinked, hhas, -⟩ := hholds
      exact ⟨m, hat, hlinked, hhas, hnone m hat hhas⟩
    · obtain ⟨hat, hlinked, hhas⟩ := hholds
      exact ⟨m, hat, hlinked, hhas, hnone m hat hhas⟩
    · obtain ⟨m, -, hat, hhas, -⟩ := hholds
      exact ⟨m, hat, hlinked, hhas, hnone m hat hhas⟩
  · obtain ⟨p, hr⟩ := runs_of_history hs (.inr hne)
    obtain ⟨hrole, hlocks⟩ := destroyed_cases hr hne
    have hgone : Unplaced s.shared id := by
      rcases hrole with hr | hr
      · exact (hI.sems.roles t id _ hr).1
      · exact (hI.sems.roles t id _ hr).1
    refine ⟨hgone.linked, hgone.has, hgone.not_at, fun u hu hneeds => ?_⟩
    rcases role_of_needs hI.sound hneeds with ⟨n, hr⟩ | ⟨v, hr⟩ | hunlinks
    · exact hgone.not_at n (hI.sems.roles u id _ hr).1
    · obtain ⟨n, hat, -⟩ := hI.sems.roles u id _ hr
      exact hgone.not_at n hat
    · rcases hlocks with hdir | hdes
      · exact hu (hex.dir u t (dir_of_unlinks hunlinks) hdir)
      · exact hok id hdes u hunlinks
  · obtain ⟨u, hu⟩ := hI.sems.handled n id hat hlinked hhas
    rcases removes_of_handles hu with hr | ⟨m, hr⟩
    · exact ⟨u, hr⟩
    · have hnot := (hI.sems.roles u id _ hr).2.2.2
      exact absurd (hnot.symm.trans hopened) (by simp)

/-- The thread `true` makes a semaphore and opens it, `false` unlinks it and keeps its lock, and
`true` closes it and is about to destroy it. -/
theorem reach_overlap (ok : Machine Bool → Bool → Prop)
    (hok : ∀ s t, (s.points t).destroys = none → ok s t) :
    ∃ s, Reach (Step (semfsThreads Bool)) ok ((semfsThreads Bool).init (semfsCreate Bool)) s ∧
      s.pcs true = .active (.reclaim 0 (.destroy 0)) ∧ s.holder (.sems 0) = some false ∧
      s.shared.removed 0 = [true] ∧ s.shared.destroyed 0 = [] := by
  have start : Reach (Step (semfsThreads Bool)) ok
      ((semfsThreads Bool).init (semfsCreate Bool)) _ := .refl
  have created := start.tail (a := true) (hok _ _ rfl) (.run rfl (.callCreat "a" false _))
    |>.tail (a := true) (hok _ _ rfl) (.run rfl (.creatName rfl))
    |>.tail (a := true) (hok _ _ rfl) (.acquire rfl (.creatEnter _ _) rfl)
    |>.tail (a := true) (hok _ _ rfl) (.run rfl (.creatNew rfl))
    |>.tail (a := true) (hok _ _ rfl) (.run rfl (@Runs.create _ _ _ _ _ _ _ 0 rfl))
    |>.tail (a := true) (hok _ _ rfl) (.acquire rfl (.insertEnter _ _ _ _) rfl)
    |>.tail (a := true) (hok _ _ rfl) (.run rfl (.insert (by decide)))
    |>.tail (a := true) (hok _ _ rfl) (.release rfl (.inserted _ _ _ _ _))
    |>.tail (a := true) (hok _ _ rfl) (.run rfl .dirent)
    |>.tail (a := true) (hok _ _ rfl) (.acquire rfl (.getEnter _ _) rfl)
    |>.tail (a := true) (hok _ _ rfl) (.run rfl (.findNone nofun))
    |>.tail (a := true) (hok _ _ rfl)
      (.run rfl (@Runs.make _ _ _ _ _ _ 0 0 _ rfl (by decide) rfl rfl rfl))
    |>.tail (a := true) (hok _ _ rfl) (.release rfl (.getOk _ _ _))
    |>.tail (a := true) (hok _ _ rfl) (.run rfl .link)
    |>.tail (a := true) (hok _ _ rfl) (.release rfl (.done _))
  have unlinked := created.tail (a := false) (hok _ _ rfl) (.run rfl (.callRemove "a" _))
    |>.tail (a := false) (hok _ _ rfl) (.run rfl (.removeName rfl))
    |>.tail (a := false) (hok _ _ rfl) (.acquire rfl (.removeEnter _) rfl)
    |>.tail (a := false) (hok _ _ rfl) (.run rfl (.removeFound rfl))
    |>.tail (a := false) (hok _ _ rfl) (.acquire rfl (.semEnter _ _) rfl)
    |>.tail (a := false) (hok _ _ rfl) (.run rfl (@Runs.get _ _ _ _ _ _ 0 rfl))
    |>.tail (a := false) (hok _ _ rfl) (.release rfl (.semGot _ _ _))
    |>.tail (a := false) (hok _ _ rfl) (.acquire rfl (.lock _ _ _ _) rfl)
    |>.tail (a := false) (hok _ _ rfl) (.run rfl (.unlink rfl rfl))
  have closed := unlinked.tail (a := true) (hok _ _ rfl)
      (.run rfl (@Runs.callDecref _ _ _ _ 0 (by decide)))
    |>.tail (a := true) (hok _ _ rfl) (.run rfl (.callReclaim rfl rfl))
    |>.tail (a := true) (hok _ _ rfl) (.acquire rfl (.reclaimEnter _) rfl)
    |>.tail (a := true) (hok _ _ rfl) (.run rfl (.last rfl (by decide)))
    |>.tail (a := true) (hok _ _ rfl)
      (.run rfl (@Runs.unhave _ _ _ _ _ _ 0 _ rfl (by decide) rfl rfl rfl))
    |>.tail (a := true) (hok _ _ rfl) (.run rfl (.isUnlinked rfl rfl rfl))
  exact ⟨_, closed, rfl, rfl, rfl, rfl⟩

theorem semfs_sem_lifetime_overlap :
    ∃ s : Machine Bool, s.shared.removed 0 = [true] ∧
      (true ∈ s.shared.destroyed 0 ∨ (s.points true).owes = some 0) := by
  obtain ⟨s, hs, -, -, hremoved, -⟩ := reach_overlap Orderly fun s t hnone id hid => by
    rw [hnone] at hid
    cases hid
  refine ⟨s, hremoved, ((semfs_sem_lifetime hs).1 0).2.2 true ?_⟩
  rw [hremoved]
  exact List.mem_singleton_self true

/-- Without the condition, `semfs_reclaim` destroys a semaphore whose lock `semfs_remove` has. -/
theorem semfs_reclaim_destroys_locked :
    ∃ s s' : Machine Bool,
      Reach (Step (semfsThreads Bool)) anyStep ((semfsThreads Bool).init (semfsCreate Bool)) s ∧
      Step (semfsThreads Bool) s true s' ∧ s.shared.destroyed 0 = [] ∧
      s'.shared.destroyed 0 = [true] ∧ Needs s 0 false := by
  obtain ⟨s, hs, hpc, hheld, -, hdestroyed⟩ := reach_overlap anyStep fun _ _ _ => trivial
  refine ⟨s, _, hs, .run hpc .reclaimDestroy, hdestroyed, ?_, .inl hheld⟩
  simp [Fs.destroy, hdestroyed]

end Os161.Semfs.Objects
