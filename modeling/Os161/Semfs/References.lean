import Os161.Semfs.Objects

set_option autoImplicit false

/-!
# References to vnodes

The threads of `Semfs.Objects`, seen as points of the program and the data that they share
(`step_cases`). `Refs` says who has the references that `vn_refcount` counts: open files, and threads
in a call. So a vnode that somebody has a reference to is in `semfs_vnodes`, and a thread that finds
one reference in `semfs_reclaim` has the only one.
-/

namespace Os161.Semfs.Objects

open Os161.Lib.Monitor

variable {τ : Type} [DecidableEq τ]

/-- The threads, the locks and the file system. -/
abbrev Machine (τ : Type) : Type := State τ Lk SemId (Fs τ) Point

/-- The point at which a thread is, or goes on when it has its lock again. -/
def pointOf : Pc Lk SemId Point → Point
  | .active p => p
  | .waiting _ _ p => p

/-- The points of all threads. -/
def Machine.points (s : Machine τ) (t : τ) : Point := pointOf (s.pcs t)

omit [DecidableEq τ] in
theorem points_of_active {s : Machine τ} {t : τ} {p : Point} (h : s.pcs t = .active p) :
    s.points t = p := by
  unfold Machine.points
  rw [h]
  rfl

theorem points_update {s s' : Machine τ} {t : τ} {pc : Pc Lk SemId Point} {p : Point}
    (h : s'.pcs = Function.update s.pcs t pc) (hp : pointOf pc = p) :
    s'.points = Function.update s.points t p := by
  subst hp
  funext u
  unfold Machine.points
  rw [h]
  by_cases hu : u = t
  · rw [hu, Function.update_self, Function.update_self]
  · rw [Function.update_of_ne hu, Function.update_of_ne hu]

/-- What a step does to the points and the data. -/
theorem step_cases {s s' : Machine τ} {t : τ} (hs : Step (semfsThreads τ) s t s') :
    (∃ p, Runs t (s.points t) s.shared p s'.shared ∧ s'.points = Function.update s.points t p) ∨
    (∃ r p, Calls (s.points t) r p ∧ s'.shared = effect t s.shared (s.points t) r ∧
      s'.points = Function.update s.points t p) ∨
    (s'.shared = s.shared ∧ s'.points = s.points) := by
  cases hs with
  | run hk hr =>
    rw [points_of_active hk]
    exact .inl ⟨_, hr, points_update rfl rfl⟩
  | acquire hk hc hfree =>
    rw [points_of_active hk]
    exact .inr (.inl ⟨_, _, hc, rfl, points_update rfl rfl⟩)
  | release hk hc =>
    rw [points_of_active hk]
    exact .inr (.inl ⟨_, _, hc, rfl, points_update rfl rfl⟩)
  | wait hk hc =>
    rw [points_of_active hk]
    exact .inr (.inl ⟨_, _, hc, rfl, points_update rfl rfl⟩)
  | @resume p c ℓ hk hq hfree =>
    refine .inr (.inr ⟨rfl, ?_⟩)
    have hp : s.points t = p := by
      unfold Machine.points
      rw [hk]
      rfl
    rw [points_update (s := s) (p := p) rfl rfl, ← hp]
    exact Function.update_eq_self t s.points
  | signal hk hc =>
    rw [points_of_active hk]
    exact .inr (.inl ⟨_, _, hc, rfl, points_update rfl rfl⟩)
  | broadcast hk hc =>
    rw [points_of_active hk]
    exact .inr (.inl ⟨_, _, hc, rfl, points_update rfl rfl⟩)

/-- `semfs_dirlock` and `semfs_tablelock` have one owner each. -/
structure Exclusive (pts : τ → Point) : Prop where
  dir : ∀ t u, (pts t).locked .dir = true → (pts u).locked .dir = true → t = u
  table : ∀ t u, (pts t).locked .table = true → (pts u).locked .table = true → t = u

theorem owns_of_locked {s : Machine τ} (h : Sound (semfsThreads τ) s) {t : τ} {ℓ : Lk}
    (hℓ : ∀ id, ℓ ≠ .sems id) (ht : (s.points t).locked ℓ = true) :
    (s.pcs t).owns (semfsThreads τ) ℓ = true := by
  unfold Machine.points at ht
  cases hpc : s.pcs t with
  | active p =>
    rw [hpc] at ht
    exact ht
  | waiting c ℓ' p =>
    rw [hpc] at ht
    obtain ⟨k, hc⟩ := h.called t c ℓ' p hpc
    -- only users of a semaphore wait, and they have no other lock
    cases hc with
    | useWait v id => exact absurd (by simpa [pointOf, Point.locked] using ht) (hℓ c)

theorem exclusive_of_sound {s : Machine τ} (h : Sound (semfsThreads τ) s) : Exclusive s.points where
  dir _ _ ht hu := h.owner_unique (owns_of_locked h (by simp) ht) (owns_of_locked h (by simp) hu)
  table _ _ ht hu := h.owner_unique (owns_of_locked h (by simp) ht) (owns_of_locked h (by simp) hu)

/-! ## What a point says about vnodes -/

/-- What a point says about vnodes. -/
structure View where
  /-- The thread has a reference. -/
  ref : Option VnId := none
  /-- The vnode is in `semfs_vnodes`. -/
  listed : Option VnId := none
  /-- Nobody else has a reference. -/
  sole : Option VnId := none
  /-- The vnode is not in `semfs_vnodes` any more. -/
  dead : Option VnId := none
  /-- The number of a vnode. -/
  numbered : Option (VnId × Nat) := none
  /-- No vnode has this number. -/
  making : Option Nat := none

def Point.view : Point → View
  | .creat _ _ (.link _ _ v) | .use v _ _ | .decref v | .done v | .reclaim v .enter
  | .reclaim v .test => { ref := some v, listed := some v }
  | .getvnode _ n (.ok v) => { ref := some v, listed := some v, numbered := some (v, n) }
  | .getvnode _ n (.incref v) => { listed := some v, numbered := some (v, n) }
  | .getvnode _ n .make => { making := some n }
  | .getsem (.use v) n _ => { ref := some v, listed := some v, numbered := some (v, n) }
  | .reclaim v .unhave => { ref := some v, listed := some v, sole := some v }
  | .reclaim v (.linked _) | .reclaim v (.destroy _) | .reclaim v .release | .reclaim v .free =>
      { ref := some v, sole := some v, dead := some v }
  | _ => {}

/-- `semv_semnum`. -/
def Fs.Semnum (x : Fs τ) (v : VnId) (n : Nat) : Prop := ∃ d, x.vn v = some d ∧ d.semnum = n

/-- `v` is the vnode with the number `n`. -/
def Fs.IsVn (x : Fs τ) (v : VnId) (n : Nat) : Prop := v ∈ x.vnodes ∧ x.Semnum v n

/-- What the thread `t` knows about vnodes. -/
structure RefKnows (x : Fs τ) (t : τ) (p : View) : Prop where
  temps : ∀ v, t ∈ x.temps v ↔ p.ref = some v
  listed : ∀ v, p.listed = some v → v ∈ x.vnodes
  sole : ∀ v, p.sole = some v → x.refs v = 0 ∧ x.temps v = [t]
  dead : ∀ v, p.dead = some v → v ∉ x.vnodes
  numbered : ∀ v n, p.numbered = some (v, n) → x.Semnum v n
  making : ∀ n, p.making = some n → ∀ v, ¬ x.IsVn v n

/-- Who has the references, and what vnodes there are. -/
structure Refs (x : Fs τ) (pts : τ → Point) : Prop where
  knows : ∀ t, RefKnows x t (pts t).view
  nodup : ∀ v, (x.temps v).Nodup
  count : ∀ v d, x.vn v = some d → d.refcount = x.refs v + (x.temps v).length
  unborn : ∀ v, x.vn v = none → x.refs v = 0 ∧ x.temps v = [] ∧ v ∉ x.vnodes
  once : x.vnodes.Nodup
  listed : ∀ v, x.refs v ≠ 0 → v ∈ x.vnodes
  inj : ∀ v w n, x.IsVn v n → x.IsVn w n → v = w

omit [DecidableEq τ] in
theorem refs_init : Refs (semfsCreate τ) (fun _ => .out) where
  knows t :=
    { temps := fun v => by simp [semfsCreate, Point.view]
      listed := nofun
      sole := nofun
      dead := nofun
      numbered := nofun
      making := nofun }
  nodup _ := List.nodup_nil
  count := nofun
  unborn _ _ := ⟨rfl, rfl, List.not_mem_nil⟩
  once := List.nodup_nil
  listed _ h := absurd rfl h
  inj _ _ _ h := absurd h.1 List.not_mem_nil

variable {x x' : Fs τ} {pts : τ → Point} {t u : τ} {p : Point} {w w' : View} {v : VnId}

/-! ## Changes of references -/

/-- `t` changes nothing but the references to `v`. -/
structure Counts (x x' : Fs τ) (t : τ) (v : VnId) : Prop where
  vnodes : x'.vnodes = x.vnodes
  semnum : ∀ w n, x'.Semnum w n ↔ x.Semnum w n
  refs : ∀ w, w ≠ v → x'.refs w = x.refs w
  temps : ∀ w, w ≠ v → x'.temps w = x.temps w
  others : ∀ u, u ≠ t → (u ∈ x'.temps v ↔ u ∈ x.temps v)
  nodup : (x'.temps v).Nodup
  listed : x'.refs v ≠ 0 → v ∈ x.vnodes
  born : ∀ w, x'.vn w = none → x.vn w = none ∧ w ≠ v
  count : ∀ w d, x'.vn w = some d → d.refcount = x'.refs w + (x'.temps w).length

omit [DecidableEq τ] in
theorem Counts.isVn (h : Counts x x' t v) (w : VnId) (n : Nat) : x'.IsVn w n ↔ x.IsVn w n := by
  unfold Fs.IsVn
  rw [h.vnodes, h.semnum]

omit [DecidableEq τ] in
/-- Another thread keeps what it knows when it does not have the only reference to `v`. -/
theorem RefKnows.counts (h : RefKnows x u w) (hc : Counts x x' t v) (hu : u ≠ t)
    (hsole : w.sole ≠ some v) : RefKnows x' u w where
  temps w := by
    by_cases hw : w = v
    · rw [hw, hc.others u hu]
      exact h.temps v
    · rw [hc.temps w hw]
      exact h.temps w
  listed w hw := by
    rw [hc.vnodes]
    exact h.listed w hw
  sole w hw := by
    have hwv : w ≠ v := by
      rintro rfl
      exact hsole hw
    rw [hc.refs w hwv, hc.temps w hwv]
    exact h.sole w hw
  dead w hw := by
    rw [hc.vnodes]
    exact h.dead w hw
  numbered w n hw := (hc.semnum w n).2 (h.numbered w n hw)
  making n hn w := by
    rw [hc.isVn]
    exact h.making n hn w

theorem Refs.counts (h : Refs x pts) (hc : Counts x x' t v) (hself : RefKnows x' t p.view)
    (hsole : ∀ u, u ≠ t → (pts u).view.sole ≠ some v) : Refs x' (Function.update pts t p) where
  knows u := by
    by_cases hu : u = t
    · rw [hu, Function.update_self]
      exact hself
    · rw [Function.update_of_ne hu]
      exact (h.knows u).counts hc hu (hsole u hu)
  nodup w := by
    by_cases hw : w = v
    · rw [hw]
      exact hc.nodup
    · rw [hc.temps w hw]
      exact h.nodup w
  count := hc.count
  unborn w hw := by
    obtain ⟨hborn, hwv⟩ := hc.born w hw
    rw [hc.vnodes, hc.refs w hwv, hc.temps w hwv]
    exact h.unborn w hborn
  once := by
    rw [hc.vnodes]
    exact h.once
  listed w hw := by
    rw [hc.vnodes]
    by_cases hwv : w = v
    · rw [hwv] at hw ⊢
      exact hc.listed hw
    · rw [hc.refs w hwv] at hw
      exact h.listed w hw
  inj w w' n hw hw' := by
    rw [hc.isVn] at hw hw'
    exact h.inj w w' n hw hw'

omit [DecidableEq τ] in
theorem semnum_setRefcount (w : VnId) (n k : Nat) :
    (x.setRefcount v k).Semnum w n ↔ x.Semnum w n := by
  unfold Fs.Semnum Fs.setRefcount
  by_cases hw : w = v
  · subst hw
    cases hd : x.vn w <;> simp
  · simp [hw]

omit [DecidableEq τ] in
theorem born_setRefcount {d : Vnode} (hd : x.vn v = some d) {k : Nat} (w : VnId)
    (hw : (x.setRefcount v k).vn w = none) : x.vn w = none ∧ w ≠ v := by
  unfold Fs.setRefcount at hw
  by_cases hwv : w = v
  · subst hwv
    simp [hd] at hw
  · exact ⟨by simpa [hwv] using hw, hwv⟩

omit [DecidableEq τ] in
/-- The new reference count is what it should be. -/
theorem count_setRefcount (h : Refs x pts) {d : Vnode} (hd : x.vn v = some d) {k : Nat}
    {y : Fs τ} (hvn : y.vn = x.vn) (hrefs : ∀ w, w ≠ v → y.refs w = x.refs w)
    (htemps : ∀ w, w ≠ v → y.temps w = x.temps w) (hk : k = y.refs v + (y.temps v).length)
    (w : VnId) (e : Vnode) (he : (y.setRefcount v k).vn w = some e) :
    e.refcount = y.refs w + (y.temps w).length := by
  by_cases hw : w = v
  · subst hw
    simp only [Fs.setRefcount, hvn, hd, Function.update_self, Option.map_some,
      Option.some.injEq] at he
    rw [← he]
    exact hk
  · rw [hrefs w hw, htemps w hw]
    refine h.count w e ?_
    simpa [Fs.setRefcount, hvn, hw] using he

omit [DecidableEq τ] in
theorem counts_take (h : Refs x pts) (hp : (pts t).view.ref ≠ some v) (hrefs : x.refs v ≠ 0) :
    Counts x (x.take t v) t v where
  vnodes := rfl
  semnum _ _ := Iff.rfl
  refs w hw := Function.update_of_ne hw _ _
  temps w hw := Function.update_of_ne hw _ _
  others u hu := by simp [Fs.take, hu]
  nodup := by
    have hnot : t ∉ x.temps v := fun ht => hp (((h.knows t).temps v).1 ht)
    simpa [Fs.take, hnot] using h.nodup v
  listed _ := h.listed v hrefs
  born w hw := by
    refine ⟨hw, ?_⟩
    rintro rfl
    exact hrefs (h.unborn w hw).1
  count w d hd := by
    have hcount := h.count w d hd
    by_cases hw : w = v
    · subst hw
      simp only [Fs.take, Function.update_self, List.length_cons]
      omega
    · simpa [Fs.take, hw] using hcount

theorem counts_give (h : Refs x pts) (hp : (pts t).view.ref = some v) (hlist : v ∈ x.vnodes) :
    Counts x (x.give t v) t v where
  vnodes := rfl
  semnum _ _ := Iff.rfl
  refs w hw := Function.update_of_ne hw _ _
  temps w hw := Function.update_of_ne hw _ _
  others u hu := by simp [Fs.give, List.mem_erase_of_ne hu]
  nodup := by simpa [Fs.give] using (h.nodup v).erase t
  listed _ := hlist
  born w hw := by
    refine ⟨hw, ?_⟩
    rintro rfl
    exact (h.unborn w hw).2.2 hlist
  count w d hd := by
    have hcount := h.count w d hd
    by_cases hw : w = v
    · subst hw
      have ht : t ∈ x.temps w := ((h.knows t).temps w).2 hp
      have hlen := List.length_erase_of_mem ht
      have hpos := List.length_pos_of_mem ht
      simp only [Fs.give, Function.update_self]
      omega
    · simpa [Fs.give, hw] using hcount

omit [DecidableEq τ] in
theorem counts_copy (h : Refs x pts) {d : Vnode} (hd : x.vn v = some d) (hrefs : x.refs v ≠ 0)
    (t : τ) : Counts x ((x.copy v).setRefcount v (d.refcount + 1)) t v where
  vnodes := rfl
  semnum w n := semnum_setRefcount (x := x.copy v) w n _
  refs w hw := Function.update_of_ne hw _ _
  temps _ _ := rfl
  others _ _ := Iff.rfl
  nodup := h.nodup v
  listed _ := h.listed v hrefs
  born w hw := born_setRefcount (x := x.copy v) hd w hw
  count := by
    refine count_setRefcount h hd rfl (fun w hw => Function.update_of_ne hw _ _) (fun _ _ => rfl) ?_
    have hcount := h.count v d hd
    simp only [Fs.copy, Function.update_self]
    omega

omit [DecidableEq τ] in
theorem counts_hold (h : Refs x pts) {d : Vnode} (hd : x.vn v = some d)
    (hp : (pts t).view.ref ≠ some v) (hlist : v ∈ x.vnodes) :
    Counts x ((x.hold t v).setRefcount v (d.refcount + 1)) t v where
  vnodes := rfl
  semnum w n := semnum_setRefcount (x := x.hold t v) w n _
  refs _ _ := rfl
  temps w hw := Function.update_of_ne hw _ _
  others u hu := by simp [Fs.hold, Fs.setRefcount, hu]
  nodup := by
    have hnot : t ∉ x.temps v := fun ht => hp (((h.knows t).temps v).1 ht)
    simpa [Fs.hold, Fs.setRefcount, hnot] using h.nodup v
  listed _ := hlist
  born w hw := born_setRefcount (x := x.hold t v) hd w hw
  count := by
    refine count_setRefcount h hd rfl (fun _ _ => rfl) (fun w hw => Function.update_of_ne hw _ _) ?_
    have hcount := h.count v d hd
    simp only [Fs.hold, Function.update_self, List.length_cons]
    omega

theorem counts_drop (h : Refs x pts) {d : Vnode} (hd : x.vn v = some d)
    (hp : (pts t).view.ref = some v) {k : Nat} (hk : k = d.refcount - 1) :
    Counts x ((x.drop t v).setRefcount v k) t v where
  vnodes := rfl
  semnum w n := semnum_setRefcount (x := x.drop t v) w n _
  refs _ _ := rfl
  temps w hw := Function.update_of_ne hw _ _
  others u hu := by simp [Fs.drop, Fs.setRefcount, List.mem_erase_of_ne hu]
  nodup := by simpa [Fs.drop, Fs.setRefcount] using (h.nodup v).erase t
  listed := h.listed v
  born w hw := born_setRefcount (x := x.drop t v) hd w hw
  count := by
    refine count_setRefcount h hd rfl (fun _ _ => rfl) (fun w hw => Function.update_of_ne hw _ _) ?_
    have ht : t ∈ x.temps v := ((h.knows t).temps v).2 hp
    have hcount := h.count v d hd
    have hlen := List.length_erase_of_mem ht
    have hpos := List.length_pos_of_mem ht
    simp only [Fs.drop, Function.update_self]
    omega

/-! ## Steps -/

/-- The references and the vnodes are what they were. -/
structure SameRefs (x x' : Fs τ) : Prop where
  vnodes : x'.vnodes = x.vnodes
  vn : x'.vn = x.vn
  refs : x'.refs = x.refs
  temps : x'.temps = x.temps

omit [DecidableEq τ] in
theorem RefKnows.same (h : RefKnows x t w) (hx : SameRefs x x') : RefKnows x' t w where
  temps := by
    rw [hx.temps]
    exact h.temps
  listed := by
    rw [hx.vnodes]
    exact h.listed
  sole := by
    rw [hx.refs, hx.temps]
    exact h.sole
  dead := by
    rw [hx.vnodes]
    exact h.dead
  numbered := by
    unfold Fs.Semnum
    rw [hx.vn]
    exact h.numbered
  making := by
    unfold Fs.IsVn Fs.Semnum
    rw [hx.vnodes, hx.vn]
    exact h.making

omit [DecidableEq τ] in
theorem Refs.same (h : Refs x pts) (hx : SameRefs x x') : Refs x' pts where
  knows u := (h.knows u).same hx
  nodup := by
    rw [hx.temps]
    exact h.nodup
  count := by
    rw [hx.vn, hx.refs, hx.temps]
    exact h.count
  unborn := by
    rw [hx.vn, hx.refs, hx.temps, hx.vnodes]
    exact h.unborn
  once := by
    rw [hx.vnodes]
    exact h.once
  listed := by
    rw [hx.refs, hx.vnodes]
    exact h.listed
  inj := by
    unfold Fs.IsVn Fs.Semnum
    rw [hx.vnodes, hx.vn]
    exact h.inj

theorem Refs.move (h : Refs x pts) (hself : RefKnows x t p.view) :
    Refs x (Function.update pts t p) where
  knows u := by
    by_cases hu : u = t
    · rw [hu, Function.update_self]
      exact hself
    · rw [Function.update_of_ne hu]
      exact h.knows u
  nodup := h.nodup
  count := h.count
  unborn := h.unborn
  once := h.once
  listed := h.listed
  inj := h.inj

/-- A step that concerns no vnode. -/
theorem Refs.idle (h : Refs x pts) (hx : SameRefs x x') (hself : RefKnows x t p.view) :
    Refs x' (Function.update pts t p) :=
  (h.move hself).same hx

theorem ref_of_dead (h : p.view.dead = some v) : p.view.ref = some v := by
  unfold Point.view at h ⊢
  split at h <;> first | exact h | cases h

theorem sole_cases (h : p.view.sole = some v) :
    p.view.dead = some v ∨ p.locked .table = true := by
  unfold Point.view at h ⊢
  split at h <;> first | exact .inl h | exact .inr rfl

theorem listed_cases (h : p.view.listed = some v) :
    p.view.ref = some v ∨ p.locked .table = true := by
  unfold Point.view at h ⊢
  split at h <;>
    first | exact .inl h | (right; simp [Point.locked]; done) | simp at h

theorem table_of_making {n : Nat} (h : p.view.making = some n) : p.locked .table = true := by
  unfold Point.view at h
  split at h <;> first | (simp [Point.locked]; done) | simp at h

omit [DecidableEq τ] in
/-- Nobody has the only reference to a vnode to which somebody else has one. -/
theorem Refs.not_sole (h : Refs x pts) (hu : u ≠ t)
    (hv : x.refs v ≠ 0 ∨ (pts t).view.ref = some v) : (pts u).view.sole ≠ some v := by
  intro hsole
  obtain ⟨hrefs, htemps⟩ := (h.knows u).sole v hsole
  rcases hv with hv | hv
  · exact hv hrefs
  · have ht := ((h.knows t).temps v).2 hv
    rw [htemps] at ht
    exact hu (List.mem_singleton.1 ht).symm

/-- `semfs_vnode_create` and `vnodearray_add`. -/
theorem Refs.addVnode (h : Refs x pts) {f : GetvnodeCaller} {n : Nat} (hv : x.vn v = none)
    (hp : pts t = .getvnode f n .make) (hex : Exclusive pts) :
    Refs (x.addVnode t v n) (Function.update pts t (.getvnode f n (.ok v))) := by
  obtain ⟨hrefs, htemps, hnew⟩ := h.unborn v hv
  have hknows := h.knows t
  rw [hp] at hknows
  have hmaking := hknows.making n rfl
  have htable : (pts t).locked .table = true := by
    rw [hp]
    cases f <;> rfl
  have hsem : ∀ w m, (x.addVnode t v n).Semnum w m ↔ (w = v ∧ m = n) ∨ (w ≠ v ∧ x.Semnum w m) := by
    intro w m
    unfold Fs.Semnum Fs.addVnode
    by_cases hw : w = v
    · simp [hw, eq_comm]
    · simp [hw]
  have hne : ∀ {w m}, x.Semnum w m → w ≠ v := by
    rintro w m ⟨d, hd, -⟩ rfl
    rw [hv] at hd
    cases hd
  have hisVn : ∀ w m, (x.addVnode t v n).IsVn w m → (w = v ∧ m = n) ∨ x.IsVn w m := by
    rintro w m ⟨hlist, hw⟩
    rcases (hsem w m).1 hw with hw | ⟨hwv, hw⟩
    · exact .inl hw
    · refine .inr ⟨?_, hw⟩
      simpa [Fs.addVnode, hwv] using hlist
  refine ⟨fun u => ?_, fun w => ?_, fun w d hd => ?_, fun w hw => ?_, ?_, fun w hw => ?_, ?_⟩
  · by_cases hu : u = t
    · rw [hu, Function.update_self]
      refine ⟨fun w => ?_, fun w hw => ?_, nofun, nofun, fun w m hw => ?_, nofun⟩
      · by_cases hw : w = v
        · simp [Fs.addVnode, Point.view, hw]
        · have := hknows.temps w
          simpa [Fs.addVnode, Point.view, hw, Ne.symm hw] using this
      · cases hw
        simp [Fs.addVnode]
      · cases hw
        exact (hsem v n).2 (.inl ⟨rfl, rfl⟩)
    · rw [Function.update_of_ne hu]
      have hk := h.knows u
      refine ⟨fun w => ?_, fun w hw => ?_, fun w hw => ?_, fun w hw => ?_, fun w m hw => ?_, ?_⟩
      · by_cases hw : w = v
        · subst hw
          have := hk.temps w
          simpa [Fs.addVnode, htemps, hu] using this
        · simpa [Fs.addVnode, hw] using hk.temps w
      · exact List.mem_append_left _ (hk.listed w hw)
      · obtain ⟨hr, ht⟩ := hk.sole w hw
        have hwv : w ≠ v := by
          rintro rfl
          rw [htemps] at ht
          cases ht
        exact ⟨hr, by simpa [Fs.addVnode, hwv] using ht⟩
      · have hwv : w ≠ v := by
          rintro rfl
          have hmem := (hk.temps w).2 (ref_of_dead hw)
          rw [htemps] at hmem
          cases hmem
        simpa [Fs.addVnode, hwv] using hk.dead w hw
      · have hold := hk.numbered w m hw
        exact (hsem w m).2 (.inr ⟨hne hold, hold⟩)
      · intro m hm
        exact absurd (hex.table u t (table_of_making hm) htable) hu
  · by_cases hw : w = v
    · simp [Fs.addVnode, hw]
    · simpa [Fs.addVnode, hw] using h.nodup w
  · by_cases hw : w = v
    · subst hw
      obtain rfl : { semnum := n, refcount := 1 } = d := by simpa [Fs.addVnode] using hd
      simp [Fs.addVnode, hrefs]
    · have hd : x.vn w = some d := by simpa [Fs.addVnode, hw] using hd
      simpa [Fs.addVnode, hw] using h.count w d hd
  · have hwv : w ≠ v := by
      rintro rfl
      simp [Fs.addVnode] at hw
    have hw : x.vn w = none := by simpa [Fs.addVnode, hwv] using hw
    simpa [Fs.addVnode, hwv] using h.unborn w hw
  · exact h.once.append (List.nodup_singleton v) (by simpa using hnew)
  · exact List.mem_append_left _ (h.listed w hw)
  · intro w w' m hw hw'
    rcases hisVn w m hw with ⟨rfl, rfl⟩ | hold <;> rcases hisVn w' m hw' with ⟨rfl, he⟩ | hold'
    · rfl
    · exact absurd hold' (hmaking w')
    · subst he
      exact absurd hold (hmaking w)
    · exact h.inj w w' m hold hold'

/-- `vnodearray_remove`. -/
theorem Refs.removeVnode (h : Refs x pts) (hp : pts t = .reclaim v .unhave) (hex : Exclusive pts)
    (hw : p.view = { ref := some v, sole := some v, dead := some v }) :
    Refs (x.removeVnode v) (Function.update pts t p) := by
  have hknows := h.knows t
  rw [hp] at hknows
  obtain ⟨hrefs, htemps⟩ := hknows.sole v rfl
  have hmem : ∀ w, w ∈ (x.removeVnode v).vnodes ↔ w ≠ v ∧ w ∈ x.vnodes := by
    intro w
    exact h.once.mem_erase_iff
  have hisVn : ∀ w m, (x.removeVnode v).IsVn w m → x.IsVn w m := fun w m hw =>
    ⟨((hmem w).1 hw.1).2, hw.2⟩
  refine ⟨fun u => ?_, h.nodup, h.count, fun w hw => ?_, h.once.erase v, fun w hw => ?_, ?_⟩
  · by_cases hu : u = t
    · rw [hu, Function.update_self, hw]
      refine ⟨hknows.temps, nofun, fun w e => ?_, fun w e => ?_, nofun, nofun⟩
      · cases e
        exact ⟨hrefs, htemps⟩
      · cases e
        exact fun hv => ((hmem v).1 hv).1 rfl
    · rw [Function.update_of_ne hu]
      have hk := h.knows u
      refine ⟨hk.temps, fun w e => ?_, hk.sole, fun w e => ?_, hk.numbered, fun m hm w hw => ?_⟩
      · refine (hmem w).2 ⟨?_, hk.listed w e⟩
        rintro rfl
        rcases listed_cases e with he | he
        · have hu' := (hk.temps w).2 he
          rw [htemps] at hu'
          exact hu (List.mem_singleton.1 hu')
        · refine hu (hex.table u t he ?_)
          rw [hp]
          rfl
      · exact fun hw => hk.dead w e ((hmem w).1 hw).2
      · exact hk.making m hm w (hisVn w m hw)
  · obtain ⟨h₁, h₂, h₃⟩ := h.unborn w hw
    exact ⟨h₁, h₂, fun hw => h₃ ((hmem w).1 hw).2⟩
  · refine (hmem w).2 ⟨?_, h.listed w hw⟩
    rintro rfl
    exact hw hrefs
  · exact fun w w' m hw hw' => h.inj w w' m (hisVn w m hw) (hisVn w' m hw')

omit [DecidableEq τ] in
theorem mem_temps_cons (h : ∀ w, t ∈ x.temps w ↔ (none : Option VnId) = some w) (v w : VnId) :
    t ∈ Function.update x.temps v (t :: x.temps v) w ↔ some v = some w := by
  by_cases hw : w = v
  · simp [hw]
  · simpa [hw, Ne.symm hw] using h w

theorem mem_temps_erase (h : ∀ w, t ∈ x.temps w ↔ some v = some w) (hnodup : (x.temps v).Nodup)
    (w : VnId) : t ∈ Function.update x.temps v ((x.temps v).erase t) w ↔
      (none : Option VnId) = some w := by
  by_cases hw : w = v
  · subst hw
    simp [hnodup.mem_erase_iff]
  · simpa [hw, Ne.symm hw] using h w

omit [DecidableEq τ] in
/-- A thread that knows only of its reference. -/
theorem refKnows_ref {o : Option VnId} (h : ∀ v, t ∈ x.temps v ↔ o = some v) :
    RefKnows x t { ref := o } :=
  ⟨h, nofun, nofun, nofun, nofun, nofun⟩

theorem Refs.runs (h : Refs x pts) (hex : Exclusive pts) (hr : Runs t (pts t) x p x') :
    Refs x' (Function.update pts t p) := by
  have hknows := h.knows t
  generalize hp : pts t = k at hr hknows
  have hother : ∀ v, x.refs v ≠ 0 ∨ k.view.ref = some v → ∀ u, u ≠ t →
      (pts u).view.sole ≠ some v := by
    intro v hv u hu
    refine h.not_sole hu ?_
    rwa [hp]
  cases hr with
  | @callUse _ v d hrefs hd hn =>
    have htake := counts_take h (t := t) (by simp [hp, Point.view]) hrefs
    refine h.counts htake { refKnows_ref (mem_temps_cons hknows.temps v) with
      listed := fun w hw => ?_, numbered := fun w n hw => ?_ } (hother v (.inl hrefs))
    · cases hw
      exact h.listed v hrefs
    · cases hw
      exact ⟨d, hd, rfl⟩
  | @vopIncref _ v d hrefs hd =>
    exact h.counts (counts_copy h hd hrefs t)
      (refKnows_ref hknows.temps) (hother v (.inl hrefs))
  | @callDecref _ v hrefs =>
    have htake := counts_take h (t := t) (by simp [hp, Point.view]) hrefs
    refine h.counts htake { refKnows_ref (mem_temps_cons hknows.temps v) with
      listed := fun w hw => ?_ } (hother v (.inl hrefs))
    cases hw
    exact h.listed v hrefs
  | @decref _ v d hd hmany =>
    have hdrop := counts_drop h (t := t) hd (by rw [hp]; rfl) rfl
    exact h.counts hdrop (refKnows_ref (mem_temps_erase hknows.temps (h.nodup v)))
      (hother v (.inr rfl))
  | @findVnode _ f n v d hlist hd hn =>
    refine h.idle ⟨rfl, rfl, rfl, rfl⟩ { refKnows_ref hknows.temps with
      listed := fun w hw => ?_, numbered := fun w m hw => ?_ }
    · cases hw
      exact hlist
    · cases hw
      exact ⟨d, hd, hn⟩
  | @findNone _ f n hnone =>
    refine h.idle ⟨rfl, rfl, rfl, rfl⟩ { refKnows_ref hknows.temps with
      making := fun m hm w hw => ?_ }
    cases hm
    obtain ⟨hlist, d, hd, hn⟩ := hw
    exact hnone w hlist d hd hn
  | @getIncref _ f n v d hd =>
    have hlist := hknows.listed v rfl
    have hhold := counts_hold h (t := t) hd (by simp [hp, Point.view]) hlist
    refine h.counts hhold { refKnows_ref (mem_temps_cons hknows.temps v) with
      listed := fun w hw => ?_, numbered := fun w m hw => ?_ } fun u hu hsole => ?_
    · cases hw
      exact hlist
    · cases hw
      exact (hhold.semnum v n).2 (hknows.numbered v n rfl)
    · -- a vnode that is to be reclaimed has been taken out of the table, or its table is locked
      rcases sole_cases hsole with hdead | htable
      · exact (h.knows u).dead v hdead hlist
      · refine hu (hex.table u t htable ?_)
        rw [hp]
        simp [Point.locked]
  | makeFails =>
    exact h.idle ⟨rfl, rfl, rfl, rfl⟩ (refKnows_ref hknows.temps)
  | makeRoot hv hn => exact h.addVnode hv hp hex
  | make hv hn hat hd hhas => exact (h.addVnode hv hp hex).same ⟨rfl, rfl, rfl, rfl⟩
  | @get _ f n id hat => cases f <;> exact h.idle ⟨rfl, rfl, rfl, rfl⟩ hknows
  | @busy _ v d hd hmany =>
    have hdrop := counts_drop h (t := t) hd (by rw [hp]; rfl) rfl
    exact h.counts hdrop (refKnows_ref (mem_temps_erase hknows.temps (h.nodup v)))
      (hother v (.inr rfl))
  | @last _ v d hd hone =>
    refine h.idle ⟨rfl, rfl, rfl, rfl⟩ { refKnows_ref hknows.temps with
      listed := hknows.listed, sole := fun w hw => ?_ }
    cases hw
    -- the only reference is the one that has been passed on
    have hcount := h.count v d hd
    have ht : t ∈ x.temps v := (hknows.temps v).2 rfl
    have hpos := List.length_pos_of_mem ht
    refine ⟨by omega, ?_⟩
    obtain ⟨u, hu⟩ := List.length_eq_one_iff.1 (show (x.temps v).length = 1 by omega)
    rw [hu] at ht ⊢
    rw [List.mem_singleton.1 ht]
  | unhaveRoot hd hn => exact h.removeVnode hp hex rfl
  | unhave hd hn hat he hhas => exact (h.removeVnode hp hex rfl).same ⟨rfl, rfl, rfl, rfl⟩
  | @vnodeDestroy _ v d hd hone =>
    have hdrop := counts_drop h (t := t) hd (by rw [hp]; rfl) (k := 0) (by omega)
    exact h.counts hdrop (refKnows_ref (mem_temps_erase hknows.temps (h.nodup v)))
      (hother v (.inr rfl))
  | _ => exact h.idle ⟨rfl, rfl, rfl, rfl⟩ hknows

theorem Refs.give (h : Refs x pts) (href : (pts t).view.ref = some v)
    (hlist : (pts t).view.listed = some v) (hp : p.view = {}) :
    Refs (x.give t v) (Function.update pts t p) := by
  have hknows := h.knows t
  have htemps := hknows.temps
  rw [href] at htemps
  refine h.counts (counts_give h href (hknows.listed v hlist)) ?_ fun u hu =>
    h.not_sole hu (.inr href)
  rw [hp]
  exact refKnows_ref (mem_temps_erase htemps (h.nodup v))

theorem Refs.calls (h : Refs x pts) {r : Req Lk SemId} (hc : Calls (pts t) r p) :
    Refs (effect t x (pts t) r) (Function.update pts t p) := by
  have hknows := h.knows t
  generalize hp : pts t = k at hc hknows
  cases hc with
  | done v => exact h.give (by rw [hp]; rfl) (by rw [hp]; rfl) rfl
  | useDone v id => exact h.give (by rw [hp]; rfl) (by rw [hp]; rfl) rfl
  | getOk f n v =>
    cases f with
    | root => exact h.give (by rw [hp]; rfl) (by rw [hp]; rfl) rfl
    | found | created => exact h.move ⟨hknows.temps, hknows.listed, nofun, nofun, nofun, nofun⟩
  | getEnter f n => cases f <;> exact h.move hknows
  | getFail f n => cases f <;> exact h.move hknows
  | semEnter f n => cases f <;> exact h.move hknows
  | semGot f n id =>
    cases f with
    | remove name i => exact h.move hknows
    | use v => exact h.move ⟨hknows.temps, hknows.listed, nofun, nofun, nofun, nofun⟩
  | _ => exact h.move hknows

/-- Step lemma. -/
theorem Refs.step {s s' : Machine τ} (h : Refs s.shared s.points)
    (hs : Step (semfsThreads τ) s t s') (hsound : Sound (semfsThreads τ) s) :
    Refs s'.shared s'.points := by
  rcases step_cases hs with ⟨p, hr, hpts⟩ | ⟨r, p, hc, hx, hpts⟩ | ⟨hx, hpts⟩
  · rw [hpts]
    exact h.runs (exclusive_of_sound hsound) hr
  · rw [hpts, hx]
    exact h.calls hc
  · rw [hx, hpts]
    exact h

end Os161.Semfs.Objects
